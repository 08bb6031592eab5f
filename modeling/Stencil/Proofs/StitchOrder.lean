import Stencil.Proofs.Programs

/-!
# The order of stitching

Stitching reads the templates that it rewrites, and it visits them in no particular order. Neither
shows. A template is trivial before its own calls have been replaced if and only if it is so afterwards,
so each call is replaced or kept whenever its caller is visited. Visiting a template again changes
nothing.
-/

namespace Stencil

namespace Program

variable {p q r : Program} {set : TemplateSet} {names names' : List String}

/-- Whether two programs have the same tables and the same templates. -/
structure SameCode (p q : Program) : Prop where
  schema : p.schema = q.schema
  tables : p.tables = q.tables
  root : p.root = q.root
  templates : ∀ name : String, p.templates[name]? = q.templates[name]?

/-- Stitching leaves it to the same template to be the root. -/
theorem root_stitchIn (p : Program) (names : List String) : (p.stitchIn names).root = p.root := by
  induction names generalizing p with
  | nil => rfl
  | cons name names ih =>
    have hone : (p.stitchTemplate name).root = p.root := by
      unfold stitchTemplate
      split <;> rfl
    exact (ih (p.stitchTemplate name)).trans hone

/-- Only the templates of a program can be visited. -/
theorem mem_templateNames {name : String} {t : CompiledTemplate} (ht : p.templates[name]? = some t) :
    name ∈ p.templateNames := by
  rw [templateNames, Std.TreeMap.mem_keys, ← Std.TreeMap.contains_iff_mem,
    Std.TreeMap.contains_eq_isSome_getElem?, ht, Option.isSome_some]

/-- What has been stitched depends on the templates that have been visited, but not on their order. -/
theorem sameCode_stitchIn (hp : p.Behaves set)
    (hsame : ∀ name ∈ p.templateNames, name ∈ names ↔ name ∈ names') :
    (p.stitchIn names).SameCode (p.stitchIn names') := by
  have hleft := isStitching_stitchIn hp names
  have hright := isStitching_stitchIn hp names'
  refine ⟨hleft.schema.trans hright.schema.symm, hleft.tables.trans hright.tables.symm,
    (p.root_stitchIn names).trans (p.root_stitchIn names').symm, fun name => ?_⟩
  rw [hleft.templates, hright.templates]
  cases ht : p.templates[name]? with
  | none => rfl
  | some t =>
    have hvisited : p.visited names.reverse name = p.visited names'.reverse name := by
      funext i
      simp only [visited, List.mem_reverse, hsame name (mem_templateNames ht)]
    rw [hvisited]

/-- Any order in which no template is left out does what stitching does. -/
theorem sameCode_stitch (hp : p.Behaves set) (hall : p.templateNames ⊆ names) :
    (p.stitchIn names).SameCode p.stitch :=
  sameCode_stitchIn hp fun _ hname => iff_of_true (hall hname) hname

/-- Visiting templates again after all of them have been visited changes nothing. -/
theorem sameCode_stitchIn_stitch (hp : p.Behaves set) (names : List String) :
    (p.stitch.stitchIn names).SameCode p.stitch := by
  have htwice : p.stitch.stitchIn names = p.stitchIn (p.templateNames ++ names) :=
    (List.foldl_append ..).symm
  rw [htwice]
  exact sameCode_stitch hp (List.subset_append_left _ _)

end Program

namespace Compile

/-! ### The option

Only the last step of compilation looks at whether to stitch. -/

section

variable {c : Context}

/-- The same context with stitching turned on or off. -/
def Context.withStitch (c : Context) (stitch : Bool) : Context :=
  { c with options := { c.options with stitch := stitch } }

/-- Looking up fields does not look at the option. -/
theorem fields_withStitch (stitch : Bool) (pos : Pos) (argc : Nat) (f : Fragment) (path : List String) :
    fields (c.withStitch stitch) pos argc f path = fields c pos argc f path := by
  induction path generalizing f with
  | nil => rfl
  | cons name rest ih =>
    unfold fields
    simp only [ih]
    rfl

/-- Nor does pushing values. -/
theorem pushValues_withStitch (stitch : Bool) (pos : Pos) (f : Fragment) (values : List Value) :
    pushValues (c.withStitch stitch) pos f values = pushValues c pos f values := by
  induction values generalizing f with
  | nil => rfl
  | cons v rest ih =>
    unfold pushValues
    simp only [ih]
    rfl

/-- Nor does binding variables. -/
theorem bindAll_withStitch (stitch : Bool) (assign : Bool) (f : Fragment) (decl : List Variable) :
    bindAll (c.withStitch stitch) assign f decl = bindAll c assign f decl := by
  induction decl generalizing f with
  | nil => rfl
  | cons v rest ih =>
    unfold bindAll
    simp only [ih]
    rfl

/-- Nor does interning their names. -/
theorem internAll_withStitch (stitch : Bool) (decl : List Variable) :
    internAll (c.withStitch stitch) decl = internAll c decl := by
  induction decl with
  | nil => rfl
  | cons v rest ih =>
    unfold internAll
    simp only [ih]
    rfl

mutual

/-- Nor does compiling an operand. -/
theorem operand_withStitch (stitch : Bool) (argc : Nat) (f : Fragment) : (a : Operand) →
    operand (c.withStitch stitch) argc f a = operand c argc f a
  | .bool .. | .string .. | .nil _ | .dot _ | .ident .. => rfl
  | .number n => by
    unfold operand
    rfl
  | .field pos path => by
    unfold operand
    simp only [fields_withStitch]
  | .chain pos inner path => by
    unfold operand
    simp only [operand_withStitch stitch 0 f inner, fields_withStitch]
  | .var v => by
    unfold operand
    simp only [fields_withStitch]
    rfl
  | .paren p => by
    unfold operand
    simp only [pipeline_withStitch stitch true p]
    rfl

/-- Nor does compiling operands. -/
theorem operands_withStitch (stitch : Bool) (argc : Nat) (f : Fragment) : (args : List Operand) →
    operands (c.withStitch stitch) argc f args = operands c argc f args
  | [] => rfl
  | a :: rest => by
    unfold operands
    simp only [operands_withStitch stitch 0 f rest, operand_withStitch stitch argc _ a]

/-- Nor does compiling a command. -/
theorem command_withStitch (stitch : Bool) (chained : Bool) (f : Fragment) : (cmd : Command) →
    command (c.withStitch stitch) chained f cmd = command c chained f cmd
  | .mk pos args => by
    unfold command
    simp only [operands_withStitch stitch _ f args]
    rfl

/-- Nor does compiling a chain of commands. -/
theorem commands_withStitch (stitch : Bool) (chained : Bool) (f : Fragment) : (cmds : List Command) →
    commands (c.withStitch stitch) chained f cmds = commands c chained f cmds
  | [] => rfl
  | cmd :: rest => by
    unfold commands
    simp only [command_withStitch stitch chained f cmd, commands_withStitch stitch true _ rest]

/-- Nor does compiling a pipeline. -/
theorem pipeline_withStitch (stitch : Bool) (binds : Bool) : (p : Pipeline) →
    pipeline (c.withStitch stitch) binds p = pipeline c binds p
  | .mk pos assign decl cmds => by
    unfold pipeline fold
    simp only [commands_withStitch stitch false .empty cmds, pushValues_withStitch, bindAll_withStitch]
    rfl

end

mutual

/-- Nor does compiling a node. -/
theorem node_withStitch (stitch : Bool) (f : Fragment) : (n : Node) →
    node (c.withStitch stitch) f n = node c f n
  | .list ⟨pos, ns⟩ => by
    unfold node
    simp only [nodes_withStitch stitch f ns]
  | .text .. | .comment .. | .breakLoop _ | .continueLoop _ => rfl
  | .action pos pipe => by
    unfold node action
    simp only [pipeline_withStitch]
    rfl
  | .branch kind pos pipe ⟨bodyPos, bodyNodes⟩ orElse => by
    unfold node
    simp only [pipeline_withStitch, nodes_withStitch stitch .empty bodyNodes,
      alternative_withStitch stitch orElse, internAll_withStitch]
    rfl
  | .template pos name pipe => by
    unfold node templateCall
    simp only [pipeline_withStitch]
    rfl

/-- Nor does compiling nodes. -/
theorem nodes_withStitch (stitch : Bool) (f : Fragment) : (ns : List Node) →
    nodes (c.withStitch stitch) f ns = nodes c f ns
  | [] => rfl
  | n :: rest => by
    unfold nodes
    simp only [node_withStitch stitch f n, nodes_withStitch stitch _ rest]

/-- Nor does compiling an alternative. -/
theorem alternative_withStitch (stitch : Bool) : (orElse : Option (Block Node)) →
    alternative (c.withStitch stitch) orElse = alternative c orElse
  | none => rfl
  | some ⟨pos, ns⟩ => by
    unfold alternative
    simp only [nodes_withStitch stitch .empty ns]

end

/-- Nor does compiling a template. -/
theorem template_withStitch (stitch : Bool) (tree : Tree) :
    template (c.withStitch stitch) tree = template c tree := by
  unfold template
  simp only [nodes_withStitch]

end

variable {schema : Schema} {registry : Registry} {set : TemplateSet} {p p' : Program}

/-- Adding templates one by one does not look at the option. -/
theorem addTemplates_withStitch (options : CompileOptions) (stitch : Bool) (p : Program)
    (entries : List (String × Tree)) :
    addTemplates set registry { options with stitch := stitch } p entries =
      addTemplates set registry options p entries := by
  induction entries generalizing p with
  | nil => rfl
  | cons entry rest ih =>
    obtain ⟨name, tree⟩ := entry
    have hone : addTemplate set registry { options with stitch := stitch } p name tree =
        addTemplate set registry options p name tree := by
      unfold addTemplate
      have htemplate := template_withStitch
        (c := ⟨set, registry, options, p.schema, name, tree.source⟩) stitch tree
      exact congrArg (fun x : M CompiledTemplate => do
        let r ← x.run ⟨p.tables, false, []⟩
        return { p with tables := r.2.tables, templates := p.templates.insert name r.1 }) htemplate
    unfold addTemplates
    simp only [hone, ih]

/-- The stitched program is the other one after stitching. -/
theorem eq_stitch {options : CompileOptions}
    (hstitched : compile schema registry { options with stitch := true } set = .ok p)
    (hplain : compile schema registry { options with stitch := false } set = .ok p') :
    p = p'.stitch := by
  obtain ⟨q, hadd, rfl⟩ := compile_eq_ok hstitched
  obtain ⟨q', hadd', rfl⟩ := compile_eq_ok hplain
  rw [addTemplates_withStitch] at hadd hadd'
  rw [hadd] at hadd'
  cases hadd'
  rfl

/-- A well-formed set renders alike whether it has been stitched or not: every run ends on the same
machine, or with the same error after the same output, or not at all. It does not matter in which
order the templates are visited, as long as none is left out, or whether they are visited again. -/
theorem stitching_unobservable (options : CompileOptions) (hwf : set.wellFormed)
    (hstitched : compile schema registry { options with stitch := true } set = .ok p)
    (hplain : compile schema registry { options with stitch := false } set = .ok p') :
    (∀ name data vars, p.Renders name data vars = p'.Renders name data vars) ∧
      (∀ names, p'.templateNames ⊆ names → (p'.stitchIn names).SameCode p) ∧
      ∀ names, (p.stitchIn names).SameCode p := by
  obtain rfl := eq_stitch hstitched hplain
  obtain ⟨q, hadd, heq⟩ := compile_eq_ok hplain
  obtain rfl : p' = q := heq
  have hp := compiled_addTemplates hwf hadd
  refine ⟨fun name data vars => ?_, fun names => Program.sameCode_stitch hp.behaves,
    fun names => Program.sameCode_stitchIn_stitch hp.behaves names⟩
  exact hp.renders_stitching (Program.isStitching_stitchIn hp.behaves p'.templateNames) name data vars

/-- In the sample set the call of the template `end` is stitched away, and it does not show. -/
theorem stitching_unobservable_sample :
    Sample.set.wellFormed ∧
      ∃ p p', compile .plain .empty ⟨true, true, false⟩ Sample.set = .ok p ∧
        compile .plain .empty ⟨true, false, false⟩ Sample.set = .ok p' ∧
        (∀ name data vars, p.Renders name data vars = p'.Renders name data vars) ∧
        (p'.stitchIn p'.templateNames.reverse).SameCode p ∧ p.stitch.SameCode p := by
  obtain ⟨p, hp⟩ := exists_of_isOk
    (show (compile .plain .empty ⟨true, true, false⟩ Sample.set).isOk by decide +kernel)
  obtain ⟨p', hp'⟩ := exists_of_isOk
    (show (compile .plain .empty ⟨true, false, false⟩ Sample.set).isOk by decide +kernel)
  obtain ⟨hrenders, horder, hagain⟩ := stitching_unobservable .standard Sample.wellFormed_set hp hp'
  have hall : p'.templateNames ⊆ p'.templateNames.reverse := fun _ hname => List.mem_reverse.mpr hname
  exact ⟨Sample.wellFormed_set, p, p', hp, hp', hrenders, horder _ hall, hagain _⟩

end Compile
end Stencil
