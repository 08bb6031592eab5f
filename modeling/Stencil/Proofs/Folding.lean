import Stencil.Builtin
import Stencil.Proofs.AlikeStatements
import Stencil.Proofs.Safety

/-!
# Folding and its effects

Whether it shows that constants have been folded. As long as the compiler makes the same decisions
with and without folding it does not: every run of a template ends in the same way in both programs.
But the decisions depend on the code that has been written so far, and there are sets for which they
differ.
-/

namespace Stencil

variable {p p' : Program}

/-- Whether two programs have the same templates, whose codes have the same effects. -/
structure ProgramsAlike (schema : Schema) (p p' : Program) : Prop where
  schema_left : p.schema = schema
  schema_right : p'.schema = schema
  tables : p.tables.Alike p'.tables
  missing : ∀ name : String, p.templates[name]? = none ↔ p'.templates[name]? = none
  code : ∀ (name : String) (t t' : CompiledTemplate), p.templates[name]? = some t →
    p'.templates[name]? = some t' →
    StatementsAlike schema p.tables p'.tables t.code.toList t'.code.toList

namespace ProgramsAlike

variable {schema : Schema}

/-- Calls of the templates of two programs do the same if the templates do. -/
theorem enter_eq (h : ProgramsAlike schema p p') {run run' : String → CompiledTemplate → Effect}
    (hrun : ∀ (name : String) (t t' : CompiledTemplate), p.templates[name]? = some t →
      p'.templates[name]? = some t' → run name t = run' name t') (ns index : Nat) :
    p.enter run ns index = p'.enter run' ns index := by
  funext m o
  have hcallee : m.callee p ns index = m.callee p' ns index := by
    simp only [Machine.callee, h.tables.strings]
  unfold Program.enter
  rw [hcallee]
  cases m.callee p' ns index with
  | error e => rfl
  | ok r =>
    obtain ⟨nsName, target, v⟩ := r
    simp only
    cases ht : p.templates[target]? with
    | none => rw [(h.missing target).mp ht]
    | some t =>
      cases ht' : p'.templates[target]? with
      | none => simp [(h.missing target).mpr ht'] at ht
      | some t' => simp only [hrun target t t' ht ht']

/-- The programs are paired at any depth of nested calls if calls do the same there. -/
theorem paired_level (h : ProgramsAlike schema p p') {n : Nat}
    (hcall : (p.level n).call = (p'.level n).call) :
    Env.Paired schema p.tables p'.tables (p.level n) (p'.level n) where
  schema_left := (p.schema_level n).trans h.schema_left
  schema_right := (p'.schema_level n).trans h.schema_right
  left := p.tables_level n ▸ .refl _
  right := p'.tables_level n ▸ .refl _
  alike := by
    rw [p.tables_level n, p'.tables_level n]
    exact h.tables
  call := hcall

/-- Calls do the same in both programs, however deep they may be nested. -/
theorem call_level (h : ProgramsAlike schema p p') (n : Nat) :
    (p.level n).call = (p'.level n).call := by
  induction n with
  | zero => rfl
  | succ n ih =>
    funext ns index
    refine h.enter_eq (fun name t t' ht ht' => ?_) ns index
    exact (h.code name t t' ht ht').runs _ _ (h.paired_level ih)

/-- The templates of both programs have the same effects. -/
theorem runs_eq (h : ProgramsAlike schema p p') {name : String} {t t' : CompiledTemplate}
    (ht : p.templates[name]? = some t) (ht' : p'.templates[name]? = some t') :
    p.env.Runs t.code.toList = p'.env.Runs t'.code.toList := by
  funext m o
  rw [Program.runs_iff_exists_level, Program.runs_iff_exists_level]
  have hlevel (n : Nat) : (p.level n).Runs t.code.toList = (p'.level n).Runs t'.code.toList :=
    (h.code name t t' ht ht').runs _ _ (h.paired_level (h.call_level n))
  simp only [hlevel]

end ProgramsAlike

namespace Compile

variable {schema : Schema} {registry : Registry} {options options' : CompileOptions}
  {set : TemplateSet} {q q' : Program}

/-- The code of a template has the same effect on both sides if the same has been decided. -/
theorem lockstep_template {c : Context} {s s' : State} {tree : Tree} (hs : s.tables.Alike s'.tables)
    (hdecide : Node.allDecisions c .empty ⟨s.tables, false, []⟩ tree.root.nodes =
      Node.allDecisions (c.withOptions options) .empty ⟨s'.tables, false, []⟩ tree.root.nodes) :
    Lockstep (template c tree) (template (c.withOptions options) tree) s s' fun t u t' u' =>
      StatementsAlike c.schema u u' t.code.toList t'.code.toList := by
  apply lockstep_modify_bind rfl rfl
  have hstart : State.Alike ⟨s.tables, false, []⟩ ⟨s'.tables, false, []⟩ := ⟨hs, rfl, rfl⟩
  have hnodes := lockstep_nodes tree.root.nodes .empty .empty _ _ hstart .nil hdecide
  exact hnodes.bind fun _ _ _ _ _ _ hadvance hf => lockstep_pure hadvance.alike hf

/-- Adding a template compiles it and puts it in under its name. -/
theorem addTemplate_eq_ok {name : String} {tree : Tree}
    (h : addTemplate set registry options p name tree = .ok q) :
    ∃ t s, template ⟨set, registry, options, p.schema, name, tree.source⟩ tree ⟨p.tables, false, []⟩ =
      .ok (t, s) ∧ q = { p with tables := s.tables, templates := p.templates.insert name t } := by
  cases htemplate : template ⟨set, registry, options, p.schema, name, tree.source⟩ tree
      ⟨p.tables, false, []⟩ with
  | error e =>
    simp only [addTemplate, StateT.run, htemplate] at h
    cases h
  | ok r =>
    simp only [addTemplate, StateT.run, htemplate] at h
    cases h
    exact ⟨r.1, r.2, rfl, rfl⟩

/-- One more template is added on both sides. -/
theorem alike_addTemplate (h : ProgramsAlike schema p p') {name : String} {tree : Tree}
    (hdecide : Node.allDecisions ⟨set, registry, options, p.schema, name, tree.source⟩ .empty
        ⟨p.tables, false, []⟩ tree.root.nodes =
      Node.allDecisions ⟨set, registry, options', p'.schema, name, tree.source⟩ .empty
        ⟨p'.tables, false, []⟩ tree.root.nodes)
    (hadd : addTemplate set registry options p name tree = .ok q)
    (hadd' : addTemplate set registry options' p' name tree = .ok q') : ProgramsAlike schema q q' := by
  obtain ⟨t, s, ht, rfl⟩ := addTemplate_eq_ok hadd
  obtain ⟨t', s', ht', rfl⟩ := addTemplate_eq_ok hadd'
  obtain ⟨hschema, hschema', htables, hmissing, hcode⟩ := h
  subst hschema
  rw [hschema'] at hdecide ht'
  have htemplate : Lockstep (template ⟨set, registry, options, p.schema, name, tree.source⟩ tree)
      (template ⟨set, registry, options', p.schema, name, tree.source⟩ tree) ⟨p.tables, false, []⟩
      ⟨p'.tables, false, []⟩ fun t u t' u' =>
        StatementsAlike p.schema u u' t.code.toList t'.code.toList := lockstep_template htables hdecide
  obtain ⟨hadvance, hnew⟩ := htemplate t s t' s' ht ht'
  refine ⟨rfl, hschema', hadvance.alike.tables, fun name' => ?_, fun name' u u' hu hu' => ?_⟩
  · simp only [Std.TreeMap.getElem?_insert]
    split
    · simp
    · exact hmissing name'
  · simp only [Std.TreeMap.getElem?_insert] at hu hu'
    split at hu
    · next heq =>
      rw [if_pos heq] at hu'
      cases hu
      cases hu'
      exact hnew
    · next hne =>
      rw [if_neg hne] at hu'
      exact (hcode name' u u' hu hu').mono hadvance.left hadvance.right

/-- Programs stay alike while templates are added to them, as long as the same is decided. -/
theorem alike_addTemplates {entries : List (String × Tree)} (h : ProgramsAlike schema p p')
    (hdecide : set.decisionsFrom registry options p entries =
      set.decisionsFrom registry options' p' entries)
    (hadd : addTemplates set registry options p entries = .ok q)
    (hadd' : addTemplates set registry options' p' entries = .ok q') : ProgramsAlike schema q q' := by
  induction entries generalizing p p' with
  | nil =>
    cases hadd
    cases hadd'
    exact h
  | cons entry rest ih =>
    obtain ⟨name, tree⟩ := entry
    obtain ⟨hfirst, hrest⟩ := Decisions.both.inj hdecide
    unfold addTemplates at hadd hadd'
    cases hone : addTemplate set registry options p name tree with
    | error e =>
      rw [hone] at hadd
      cases hadd
    | ok r =>
      cases hone' : addTemplate set registry options' p' name tree with
      | error e =>
        rw [hone'] at hadd'
        cases hadd'
      | ok r' =>
        rw [hone] at hadd hrest
        rw [hone'] at hadd' hrest
        exact ih (alike_addTemplate h hfirst hone hone') hrest hadd hadd'

/-- No run of a template shows whether constants have been folded, as long as the compiler decides the
same about escapers and newlines with and without folding; if templates are stitched, the set has to
be well-formed as well. A run ends on the same machine in both programs, or with the same error after
the same output. -/
theorem folding_unobservable (options : CompileOptions)
    (hdecide : set.decisions schema registry { options with foldConstants := true } =
      set.decisions schema registry { options with foldConstants := false })
    (hwf : options.stitch → set.wellFormed)
    (hfold : compile schema registry { options with foldConstants := true } set = .ok p)
    (hplain : compile schema registry { options with foldConstants := false } set = .ok p')
    (name : String) (data vars : Value) :
    p.Renders name data vars = p'.Renders name data vars := by
  obtain ⟨q, hadd, hq⟩ := renders_compile (by exact hwf) hfold
  obtain ⟨q', hadd', hq'⟩ := renders_compile (by exact hwf) hplain
  have hstart : ProgramsAlike schema ⟨schema, .initial, .empty, set.root⟩
      ⟨schema, .initial, .empty, set.root⟩ :=
    ⟨rfl, rfl, .refl _, fun _ => Iff.rfl, fun _ _ _ ht => nomatch ht⟩
  have halike := alike_addTemplates hstart hdecide hadd hadd'
  rw [hq, hq']
  exact Program.renders_congr (halike.missing name) fun t t' ht ht' => halike.runs_eq ht ht'

end Compile

/-! ### Samples -/

namespace Sample

open Compile

/-- The functions of the samples. -/
def builtins : Registry := Registry.empty.withBuiltins .plain

/-- A call of a function with a text, which is constant if the function is pure. -/
def callPipe (function text : String) : Pipeline :=
  .mk 0 false [] [.mk 0 [.ident 0 function, .string 0 text]]

/-- `{{if print ""}}some{{else}}{{print "none"}}{{end}}` -/
def constants : TemplateSet :=
  .ofRoot ⟨"main", ⟨0, [.branch .ifThen 0 (callPipe "print" "") ⟨0, [.text 0 "some"]⟩
    (some ⟨0, [.action 0 (callPipe "print" "none")]⟩)]⟩, none⟩

/-- `{{print ""}}⏎<b>`, where no code is left of the action if it is folded, so the newline is left
out. -/
def newline : TemplateSet :=
  { TemplateSet.ofRoot ⟨"main", ⟨0, [.action 0 (callPipe "print" ""), .text 0 "\n<b>"]⟩, none⟩ with
    contentType := "text/html" }

/-- `{{if (len "") | html_template_htmlescaper}}yes{{else}}no{{end}}`, where the escaper is left out if
the call in front of it is not folded. -/
def escaper : TemplateSet :=
  { TemplateSet.ofRoot ⟨"main", ⟨0, [.branch .ifThen 0
      (.mk 0 false [] [.mk 0 [.paren (callPipe "len" "")], .mk 0 [.ident 0 "html_template_htmlescaper"]])
      ⟨0, [.text 0 "yes"]⟩ (some ⟨0, [.text 0 "no"]⟩)]⟩, none⟩ with
    contentType := "text/html" }

/-- `{{template "part" render_top_assets}}`, where `part` is `{{print "a"}}`. The set is not well formed,
as there is nothing that the template could be called with. -/
def hook : TemplateSet :=
  (TemplateSet.ofRoot ⟨"main", ⟨0, [.template 0 "part"
    (some (.mk 0 false [] [.mk 0 [.ident 0 "render_top_assets"]]))]⟩, none⟩).insert
      ⟨"part", ⟨0, [.action 0 (callPipe "print" "a")]⟩, none⟩

/-- How the template `main` of a set ends, compiled with or without folding, and what it writes. -/
def rendered (set : TemplateSet) (fold : Bool) : Option (Option RuntimeError × String) :=
  match compile .plain builtins ⟨fold, true, false⟩ set with
  | .error _ => none
  | .ok p =>
    match p.run 100 "main" .nil .nil (Machine.fresh .unlimited .none) with
    | .done m => some (none, (String.fromUTF8? m.sink.written).getD "")
    | .failed e m => some (some e.kind, (String.fromUTF8? m.sink.written).getD "")
    | .outOfFuel => none

end Sample

namespace Compile

open Sample

/-- What the sample of constants writes does not depend on folding. -/
theorem folding_unobservable_sample :
    rendered constants true = some (none, "none") ∧ constants.wellFormed ∧
      constants.decisions .plain builtins ⟨true, true, false⟩ =
        constants.decisions .plain builtins ⟨false, true, false⟩ ∧
      ∃ p p', compile .plain builtins ⟨true, true, false⟩ constants = .ok p ∧
        compile .plain builtins ⟨false, true, false⟩ constants = .ok p' ∧
        ∀ name data vars, p.Renders name data vars = p'.Renders name data vars := by
  have hdecide : constants.decisions .plain builtins ⟨true, true, false⟩ =
      constants.decisions .plain builtins ⟨false, true, false⟩ := by decide +kernel
  have hwf : constants.wellFormed := by decide +kernel
  obtain ⟨p, hp⟩ := exists_of_isOk
    (show (compile .plain builtins ⟨true, true, false⟩ constants).isOk by decide +kernel)
  obtain ⟨p', hp'⟩ := exists_of_isOk
    (show (compile .plain builtins ⟨false, true, false⟩ constants).isOk by decide +kernel)
  refine ⟨by decide +kernel, hwf, hdecide, p, p', hp, hp', fun name data vars => ?_⟩
  exact folding_unobservable .standard hdecide (fun _ => hwf) hp hp' name data vars

/-- Folding does show where the compiler decides otherwise about a newline or an escaper, or where a
template is stitched that nothing is there to call it with. -/
theorem folding_observable :
    rendered newline true = some (none, "<b>") ∧ rendered newline false = some (none, "\n<b>") ∧
      rendered escaper true = some (none, "yes") ∧ rendered escaper false = some (none, "no") ∧
      rendered hook true = some (none, "a") ∧
      rendered hook false = some (some (.invalidCode "stack underflow"), "") := by
  decide +kernel

end Compile
end Stencil
