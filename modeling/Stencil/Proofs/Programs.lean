import Stencil.Compile
import Stencil.Proofs.Scoping
import Stencil.Proofs.Stitching

/-!
# Compiled programs

A compiled program has a template for each template of its set, and the code of each template is the
code of its nodes, apart from stitching. All templates share the tables, which only grow while one
template is compiled after the other.
-/

namespace Stencil

namespace Compile

variable {c : Context} {s s' : State} {set : TemplateSet} {registry : Registry}
  {options : CompileOptions} {schema : Schema} {p p' : Program}

/-- Whether a template has been compiled from a tree with tables that may have grown since. -/
def CompiledFrom (c : Context) (tree : Tree) (t : Tables) (u : CompiledTemplate) : Prop :=
  ∃ s f s', nodes c .empty tree.root.nodes s = .ok (f, s') ∧ s.tables.Sound ∧ s.noPrint = false ∧
    s'.tables.Extends t ∧ u = ⟨f.code, (f.mark tree.root.pos).marks, tree.source⟩

/-- A template stays compiled from its tree when tables grow. -/
theorem CompiledFrom.mono {tree : Tree} {t t' : Tables} {u : CompiledTemplate}
    (h : CompiledFrom c tree t u) (hextends : t.Extends t') : CompiledFrom c tree t' u := by
  obtain ⟨s, f, s', hcompile, hs, hprint, ht, hu⟩ := h
  exact ⟨s, f, s', hcompile, hs, hprint, ht.trans hextends, hu⟩

/-- The code of a well-formed template leaves the stacks as they were. -/
theorem CompiledFrom.exists_behaves {tree : Tree} {t : Tables} {u : CompiledTemplate}
    (h : CompiledFrom c tree t u) (hwf : Node.allWellFormed tree.root.nodes) :
    ∃ names, Behaves c.set t u.code.toList names := by
  obtain ⟨s, f, s', hcompile, hs, hprint, ht, rfl⟩ := h
  obtain ⟨code, names, hadds, hstatement⟩ :=
    (ensures_nodes tree.root.nodes .empty s hwf hs hprint).of_ok hcompile
  have hadds : f.code.toList = code := hadds
  rw [hadds]
  exact ⟨names, hstatement.toBehaves.mono ht⟩

/-- A template is the code of its nodes, compiled with no hook pending and no variable declared. -/
theorem template_eq_ok {tree : Tree} {u : CompiledTemplate} (h : template c tree s = .ok (u, s')) :
    ∃ f, nodes c .empty tree.root.nodes { s with noPrint := false, declared := [] } = .ok (f, s') ∧
      u = ⟨f.code, (f.mark tree.root.pos).marks, tree.source⟩ := by
  obtain ⟨_, s₁, hmodify, hrun⟩ := bind_eq_ok.mp h
  cases hmodify
  obtain ⟨f, s₂, hnodes, hrest⟩ := bind_eq_ok.mp hrun
  cases hrest
  exact ⟨f, hnodes, rfl⟩

/-- A template is compiled from its tree, and its tables only grow. -/
theorem yields_template {tree : Tree} (hs : s.tables.Sound) :
    Yields (template c tree) s fun u s' => s.tables.Extends s'.tables ∧ s'.tables.Sound ∧
      CompiledFrom c tree s'.tables u := by
  intro u s' hrun
  obtain ⟨f, hnodes, rfl⟩ := template_eq_ok hrun
  obtain ⟨code, names, -, hwrites⟩ := yields_nodes tree.root.nodes .empty _ f s' hnodes
  exact ⟨hwrites.extends_, hwrites.sound hs, _, f, s', hnodes, hs, rfl, .refl _, rfl⟩

/-- If the compilation of a well-formed template fails, it does not fail for a lack of balance. -/
theorem template_balanced {tree : Tree} (hwf : Node.allWellFormed tree.root.nodes)
    (hs : s.tables.Sound) {e : CompileError} (h : template c tree s = .error e) (effect : Int) :
    e.kind ≠ .unbalanced effect := by
  have hnodes : Ensures (nodes c .empty tree.root.nodes) { s with noPrint := false, declared := [] } _ :=
    ensures_nodes tree.root.nodes .empty _ hwf hs rfl
  have htemplate : Ensures (template c tree) s fun _ _ => True :=
    ensures_modify_bind (.bind hnodes fun _ _ _ => ensures_pure trivial)
  exact htemplate.of_error h effect

/-- What compiling templates adds to a program. -/
structure AddsTemplates (set : TemplateSet) (registry : Registry) (options : CompileOptions)
    (entries : List (String × Tree)) (p p' : Program) : Prop where
  schema : p'.schema = p.schema
  extends_ : p.tables.Extends p'.tables
  sound : p'.tables.Sound
  kept : ∀ (name : String) (u : CompiledTemplate), p.templates[name]? = some u →
    ∃ u', p'.templates[name]? = some u'
  added : ∀ name tree, (name, tree) ∈ entries → ∃ u, p'.templates[name]? = some u
  origin : ∀ (name : String) (u : CompiledTemplate), p'.templates[name]? = some u →
    p.templates[name]? = some u ∨ ∃ tree, (name, tree) ∈ entries ∧
      CompiledFrom ⟨set, registry, options, p.schema, name, tree.source⟩ tree p'.tables u

/-- Adding no templates changes nothing. -/
theorem addsTemplates_nil (hs : p.tables.Sound) : AddsTemplates set registry options [] p p where
  schema := rfl
  extends_ := .refl _
  sound := hs
  kept _ u hu := ⟨u, hu⟩
  added _ _ hmem := nomatch hmem
  origin _ _ hu := Or.inl hu

/-- A template is compiled in front of the others. -/
theorem AddsTemplates.cons {name : String} {tree : Tree} {u : CompiledTemplate}
    {rest : List (String × Tree)} (hextends : p.tables.Extends s.tables)
    (hu : CompiledFrom ⟨set, registry, options, p.schema, name, tree.source⟩ tree s.tables u)
    (h : AddsTemplates set registry options rest
      { p with tables := s.tables, templates := p.templates.insert name u } p') :
    AddsTemplates set registry options ((name, tree) :: rest) p p' where
  schema := h.schema
  extends_ := hextends.trans h.extends_
  sound := h.sound
  kept name' u' hu' := by
    by_cases hname : name = name'
    · exact h.kept name' u (by subst hname; exact Std.TreeMap.getElem?_insert_self)
    · apply h.kept name' u'
      rw [Std.TreeMap.getElem?_insert, if_neg fun heq => hname (Std.compare_eq_iff_eq.mp heq), hu']
  added name' tree' hmem := by
    rcases List.mem_cons.mp hmem with heq | hmem
    · cases heq
      exact h.kept name u Std.TreeMap.getElem?_insert_self
    · exact h.added name' tree' hmem
  origin name' u' hu' := by
    rcases h.origin name' u' hu' with hinsert | ⟨tree', hmem, hcompiled⟩
    · rw [Std.TreeMap.getElem?_insert] at hinsert
      split at hinsert
      · next heq =>
        obtain rfl := Std.compare_eq_iff_eq.mp heq
        cases hinsert
        exact Or.inr ⟨tree, List.mem_cons_self, hu.mono h.extends_⟩
      · exact Or.inl hinsert
    · exact Or.inr ⟨tree', List.mem_cons_of_mem _ hmem, hcompiled⟩

/-- The first template is compiled on its own, the others for the program it has been added to. -/
theorem addTemplates_cons (set : TemplateSet) (registry : Registry) (options : CompileOptions)
    (p : Program) (name : String) (tree : Tree) (rest : List (String × Tree)) :
    addTemplates set registry options p ((name, tree) :: rest) =
      (template ⟨set, registry, options, p.schema, name, tree.source⟩ tree ⟨p.tables, false, []⟩).bind
        fun r => addTemplates set registry options
          { p with tables := r.2.tables, templates := p.templates.insert name r.1 } rest := by
  simp only [addTemplates, addTemplate, StateT.run]
  cases template ⟨set, registry, options, p.schema, name, tree.source⟩ tree ⟨p.tables, false, []⟩ <;> rfl

/-- The first template is compiled and added before the others. -/
theorem addTemplates_cons_eq_ok {caller : String} {tree : Tree} {rest : List (String × Tree)}
    (h : addTemplates set registry options p ((caller, tree) :: rest) = .ok p') :
    ∃ v s, template ⟨set, registry, options, p.schema, caller, tree.source⟩ tree
        ⟨p.tables, false, []⟩ = .ok (v, s) ∧
      addTemplate set registry options p caller tree =
        .ok { p with tables := s.tables, templates := p.templates.insert caller v } ∧
      addTemplates set registry options
        { p with tables := s.tables, templates := p.templates.insert caller v } rest = .ok p' := by
  rw [addTemplates_cons] at h
  cases hrun : template ⟨set, registry, options, p.schema, caller, tree.source⟩ tree
      ⟨p.tables, false, []⟩ with
  | error e =>
    rw [hrun] at h
    cases h
  | ok r =>
    rw [hrun] at h
    refine ⟨r.1, r.2, rfl, ?_, h⟩
    simp only [addTemplate, StateT.run, hrun]
    rfl

/-- Templates of other names stay as they are. -/
theorem addTemplates_kept {name : String} {entries : List (String × Tree)}
    (h : addTemplates set registry options p entries = .ok p') (hname : name ∉ entries.map Prod.fst) :
    p'.templates[name]? = p.templates[name]? := by
  induction entries generalizing p with
  | nil =>
    cases h
    rfl
  | cons entry rest ih =>
    obtain ⟨caller, tree⟩ := entry
    rw [List.map_cons, List.mem_cons, not_or] at hname
    obtain ⟨v, s, -, -, hrest⟩ := addTemplates_cons_eq_ok h
    rw [ih hrest hname.2, Std.TreeMap.getElem?_insert,
      if_neg fun heq => hname.1 (Std.compare_eq_iff_eq.mp heq).symm]

/-- Templates are compiled one after the other. -/
theorem addTemplates_append (set : TemplateSet) (registry : Registry) (options : CompileOptions)
    (p : Program) (entries more : List (String × Tree)) :
    addTemplates set registry options p (entries ++ more) =
      (addTemplates set registry options p entries).bind fun q =>
        addTemplates set registry options q more := by
  induction entries generalizing p with
  | nil => rfl
  | cons entry rest ih =>
    obtain ⟨name, tree⟩ := entry
    rw [List.cons_append, addTemplates_cons, addTemplates_cons]
    cases template ⟨set, registry, options, p.schema, name, tree.source⟩ tree ⟨p.tables, false, []⟩ with
    | error e => rfl
    | ok r => exact ih _

/-- Compiling templates adds them all. -/
theorem addTemplates_adds {entries : List (String × Tree)} (hs : p.tables.Sound)
    (h : addTemplates set registry options p entries = .ok p') :
    AddsTemplates set registry options entries p p' := by
  induction entries generalizing p with
  | nil =>
    cases h
    exact addsTemplates_nil hs
  | cons entry rest ih =>
    obtain ⟨name, tree⟩ := entry
    rw [addTemplates_cons] at h
    cases hrun : template ⟨set, registry, options, p.schema, name, tree.source⟩ tree
        ⟨p.tables, false, []⟩ with
    | error e =>
      rw [hrun] at h
      cases h
    | ok r =>
      obtain ⟨u, s⟩ := r
      rw [hrun] at h
      obtain ⟨hextends, hsound, hu⟩ := yields_template hs u s hrun
      exact (ih hsound h).cons hextends hu

/-- If the compilation of well-formed templates fails, it does not fail for a lack of balance. -/
theorem addTemplates_balanced {entries : List (String × Tree)}
    (hwf : ∀ entry ∈ entries, Node.allWellFormed entry.2.root.nodes) (hs : p.tables.Sound)
    {e : CompileError} (h : addTemplates set registry options p entries = .error e) (effect : Int) :
    e.kind ≠ .unbalanced effect := by
  induction entries generalizing p with
  | nil => cases h
  | cons entry rest ih =>
    obtain ⟨name, tree⟩ := entry
    rw [addTemplates_cons] at h
    cases hrun : template ⟨set, registry, options, p.schema, name, tree.source⟩ tree
        ⟨p.tables, false, []⟩ with
    | error e' =>
      rw [hrun] at h
      cases h
      exact template_balanced (hwf (name, tree) List.mem_cons_self) hs hrun effect
    | ok r =>
      obtain ⟨u, s⟩ := r
      rw [hrun] at h
      obtain ⟨-, hsound, -⟩ := yields_template hs u s hrun
      exact ih (fun entry hmem => hwf entry (List.mem_cons_of_mem _ hmem)) hsound h

/-- What is known about the program compiled from a well-formed set, before it is stitched. -/
structure Compiled (schema : Schema) (registry : Registry) (options : CompileOptions)
    (set : TemplateSet) (p : Program) : Prop where
  behaves : p.Behaves set
  templates : ∀ name tree, set.get? name = some tree → ∃ u, p.templates[name]? = some u ∧
    CompiledFrom ⟨set, registry, options, schema, name, tree.source⟩ tree p.tables u

/-- The templates of a set are those found under their names. -/
theorem mem_toList_iff {name : String} {tree : Tree} :
    (name, tree) ∈ set.toList ↔ set.get? name = some tree :=
  Std.TreeMap.mem_toList_iff_getElem?_eq_some

/-- Each template of a well-formed set is well formed. -/
theorem wellFormed_of_mem (hwf : set.wellFormed) {entry : String × Tree} (hmem : entry ∈ set.toList) :
    Node.allWellFormed entry.2.root.nodes :=
  List.all_eq_true.mp hwf entry hmem

/-- The templates of a set have different names. -/
theorem nodup_names (set : TemplateSet) : (set.toList.map Prod.fst).Nodup := by
  rw [List.Nodup, List.pairwise_map]
  exact Std.TreeMap.distinct_keys_toList.imp fun hne heq => hne (Std.compare_eq_iff_eq.mpr heq)

/-- The entry of a name is the first one behind those of other names. -/
theorem exists_takeWhile_append {name : String} {tree : Tree} {entries : List (String × Tree)}
    (hmem : (name, tree) ∈ entries) (hdistinct : (entries.map Prod.fst).Nodup) :
    ∃ rest, entries = entries.takeWhile (·.1 != name) ++ (name, tree) :: rest ∧
      name ∉ rest.map Prod.fst := by
  induction entries with
  | nil => cases hmem
  | cons entry rest ih =>
    obtain ⟨hfirst, hrest⟩ := List.nodup_cons.mp hdistinct
    rcases List.mem_cons.mp hmem with rfl | hmem
    · exact ⟨rest, by simp, hfirst⟩
    · have hother : entry.1 ≠ name := fun heq => hfirst (heq ▸ List.mem_map_of_mem hmem)
      obtain ⟨rest', hsplit, hname⟩ := ih hmem hrest
      refine ⟨rest', ?_, hname⟩
      rw [List.takeWhile_cons_of_pos (by simpa using hother), List.cons_append, ← hsplit]

/-- Each template of a program comes from a tree of its set. -/
theorem AddsTemplates.exists_tree
    (h : AddsTemplates set registry options set.toList ⟨schema, .initial, .empty, set.root⟩ p)
    {name : String} {u : CompiledTemplate} (hu : p.templates[name]? = some u) :
    ∃ tree, set.get? name = some tree ∧
      CompiledFrom ⟨set, registry, options, schema, name, tree.source⟩ tree p.tables u := by
  rcases h.origin name u hu with hnone | ⟨tree, hmem, hcompiled⟩
  · exact absurd hnone (by simp)
  · exact ⟨tree, mem_toList_iff.mp hmem, hcompiled⟩

/-- Each tree of a set gives a template of the program. -/
theorem AddsTemplates.exists_template
    (h : AddsTemplates set registry options set.toList ⟨schema, .initial, .empty, set.root⟩ p)
    {name : String} {tree : Tree} (htree : set.get? name = some tree) :
    ∃ u, p.templates[name]? = some u ∧
      CompiledFrom ⟨set, registry, options, schema, name, tree.source⟩ tree p.tables u := by
  obtain ⟨u, hu⟩ := h.added name tree (mem_toList_iff.mpr htree)
  obtain ⟨tree', htree', hcompiled⟩ := h.exists_tree hu
  rw [htree] at htree'
  cases htree'
  exact ⟨u, hu, hcompiled⟩

/-- Compiling all templates of a well-formed set gives a program whose templates leave the stacks as
they were. -/
theorem AddsTemplates.compiled (hwf : set.wellFormed)
    (h : AddsTemplates set registry options set.toList ⟨schema, .initial, .empty, set.root⟩ p) :
    Compiled schema registry options set p := by
  refine ⟨⟨fun name hcontains => ?_, fun name u hu => ?_⟩, fun name tree => h.exists_template⟩
  · obtain ⟨tree, htree⟩ : ∃ tree, set.get? name = some tree := by
      have hsome : (set.trees[name]?).isSome := by
        rw [← Std.TreeMap.contains_eq_isSome_getElem?]
        exact hcontains
      exact Option.isSome_iff_exists.mp hsome
    exact h.added name tree (mem_toList_iff.mpr htree)
  · obtain ⟨tree, htree, hcompiled⟩ := h.exists_tree hu
    exact hcompiled.exists_behaves (wellFormed_of_mem hwf (mem_toList_iff.mpr htree))

/-- A set is compiled by compiling its templates and stitching the program if that is wanted. -/
theorem compile_eq_ok (h : compile schema registry options set = .ok p) :
    ∃ q, addTemplates set registry options ⟨schema, .initial, .empty, set.root⟩ set.toList = .ok q ∧
      p = if options.stitch then q.stitch else q := by
  cases hadd : addTemplates set registry options ⟨schema, .initial, .empty, set.root⟩ set.toList with
  | error e =>
    simp only [compile, hadd] at h
    cases h
  | ok q =>
    simp only [compile, hadd] at h
    cases h
    exact ⟨q, rfl, rfl⟩

/-- A program is compiled for the schema it has. -/
theorem schema_of_compile (h : compile schema registry options set = .ok p) : p.schema = schema := by
  obtain ⟨q, hadd, rfl⟩ := compile_eq_ok h
  have hq : q.schema = schema := (addTemplates_adds Tables.sound_initial hadd).schema
  have hstitched (names : List String) (q : Program) : (q.stitchIn names).schema = q.schema := by
    induction names generalizing q with
    | nil => rfl
    | cons name names ih =>
      have hone : (q.stitchTemplate name).schema = q.schema := by
        unfold Program.stitchTemplate
        split <;> rfl
      exact (ih (q.stitchTemplate name)).trans hone
  split
  · exact (hstitched _ q).trans hq
  · exact hq

/-- The program of the templates of a well-formed set, before it is stitched. -/
theorem compiled_addTemplates (hwf : set.wellFormed)
    (hadd : addTemplates set registry options ⟨schema, .initial, .empty, set.root⟩ set.toList = .ok p) :
    Compiled schema registry options set p := by
  have hadds := addTemplates_adds Tables.sound_initial hadd
  exact hadds.compiled hwf

/-- A well-formed set is compiled to such a program, in which calls of trivial templates may have been
replaced. -/
theorem exists_compiled (hwf : set.wellFormed) (h : compile schema registry options set = .ok p) :
    ∃ q φ, addTemplates set registry options ⟨schema, .initial, .empty, set.root⟩ set.toList = .ok q ∧
      Compiled schema registry options set q ∧ q.IsStitching p φ := by
  obtain ⟨q, hadd, rfl⟩ := compile_eq_ok h
  have hcompiled := compiled_addTemplates hwf hadd
  split
  · obtain ⟨φ, hφ⟩ := Program.exists_isStitching_stitch hcompiled.behaves
    exact ⟨q, φ, hadd, hcompiled, hφ⟩
  · exact ⟨q, _, hadd, hcompiled, q.isStitching_refl⟩

/-- The visits of a template of a well-formed set are those of all nodes of its tree, in the order of the
source, in the code that the template has before it is stitched. -/
theorem visits_of_addTemplates {name : String} {tree : Tree} (hwf : set.wellFormed)
    (hadd : addTemplates set registry options ⟨schema, .initial, .empty, set.root⟩ set.toList = .ok p)
    (htree : set.get? name = some tree) :
    ∃ u, p.templates[name]? = some u ∧
      Visits ⟨set, registry, options, schema, name, tree.source⟩ (Node.allInside tree.root.nodes)
        (set.visits schema registry options name) p.tables u.code.toList := by
  have hmem := mem_toList_iff.mpr htree
  obtain ⟨rest, hsplit, hname⟩ := exists_takeWhile_append hmem (nodup_names set)
  rw [hsplit, addTemplates_append] at hadd
  cases hfront : addTemplates set registry options ⟨schema, .initial, .empty, set.root⟩
      (set.toList.takeWhile (·.1 != name)) with
  | error e =>
    rw [hfront] at hadd
    cases hadd
  | ok q =>
    rw [hfront] at hadd
    have hq := addTemplates_adds Tables.sound_initial hfront
    obtain ⟨u, s, hrun, -, hrest⟩ := addTemplates_cons_eq_ok hadd
    have hu : p.templates[name]? = some u := by
      rw [addTemplates_kept hrest hname, Std.TreeMap.getElem?_insert_self]
    obtain ⟨-, hsound, -⟩ := yields_template hq.sound u s hrun
    refine ⟨u, hu, ?_⟩
    obtain ⟨f, hnodes, rfl⟩ := template_eq_ok hrun
    have hschema : q.schema = schema := hq.schema
    rw [hschema] at hnodes
    have hvisits := visits_nodes tree.root.nodes .empty _ f s hnodes (wellFormed_of_mem hwf hmem)
      hq.sound rfl
    simp only [TemplateSet.visits, htree, hfront]
    exact hvisits.mono List.prefix_rfl (addTemplates_adds hsound hrest).extends_

/-- A template does the same in a stitched program. -/
theorem Compiled.renders_stitching {φ : String → Instr → Instr} {q : Program}
    (hq : Compiled schema registry options set q) (hφ : q.IsStitching p φ) (name : String)
    (data vars : Value) : p.Renders name data vars = q.Renders name data vars := by
  apply Program.renders_congr (by rw [hφ.templates, Option.map_eq_none_iff])
  intro t u ht hu
  rw [hφ.templates, hu, Option.map_some] at ht
  cases ht
  obtain ⟨names, hbehaves⟩ := hq.behaves.code name u hu
  rw [Array.toList_map, hφ.runs_map hq.behaves hbehaves]

/-- The templates of a program do what they did before it was stitched, if its set is well-formed. -/
theorem renders_compile (hwf : options.stitch → set.wellFormed)
    (hcompile : compile schema registry options set = .ok p) :
    ∃ q, addTemplates set registry options ⟨schema, .initial, .empty, set.root⟩ set.toList = .ok q ∧
      ∀ name data vars, p.Renders name data vars = q.Renders name data vars := by
  obtain ⟨q, hadd, rfl⟩ := compile_eq_ok hcompile
  refine ⟨q, hadd, fun name data vars => ?_⟩
  split
  · next hstitch =>
    have hq := compiled_addTemplates (hwf hstitch) hadd
    obtain ⟨φ, hφ⟩ := Program.exists_isStitching_stitch hq.behaves
    exact hq.renders_stitching hφ name data vars
  · rfl

/-- If the compilation of a well-formed set fails, it does not fail for a lack of balance. -/
theorem compile_balanced (hwf : set.wellFormed) {e : CompileError}
    (h : compile schema registry options set = .error e) (effect : Int) :
    e.kind ≠ .unbalanced effect := by
  cases hadd : addTemplates set registry options ⟨schema, .initial, .empty, set.root⟩ set.toList with
  | error e' =>
    simp only [compile, hadd] at h
    cases h
    exact addTemplates_balanced (fun _ hmem => wellFormed_of_mem hwf hmem) Tables.sound_initial hadd
      effect
  | ok q =>
    simp only [compile, hadd] at h
    cases h

/-- What is said to succeed has a result. -/
theorem exists_of_isOk {ε α : Type} {x : Except ε α} (h : x.isOk) : ∃ a, x = .ok a := by
  cases x with
  | ok a => exact ⟨a, rfl⟩
  | error e => cases h

/-- The sample can be compiled. -/
theorem exists_compile_sample : ∃ p, compile .plain .empty .standard Sample.set = .ok p :=
  exists_of_isOk (by decide +kernel)

end Compile
end Stencil
