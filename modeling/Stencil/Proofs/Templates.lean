import Stencil.Proofs.Programs

/-!
# Templates of compiled programs

The code of a template in the program of any set that can be compiled, well-formed or not. It is what
the nodes of the template are compiled to, apart from calls that stitching has replaced by the chunk
of their target. Such a replacement affects neither the scopes nor the names in the code.
-/

namespace Stencil

namespace Instr

/-- Whether instructions stay as they are, apart from calls that may become chunks. -/
def Replacing (φ : Instr → Instr) : Prop :=
  ∀ i, φ i = i ∨ (∃ ns index, i = .template ns index) ∧ ∃ chunk, φ i = .wb chunk

variable {φ ψ : Instr → Instr} {i : Instr}

/-- Nothing has to be replaced. -/
theorem replacing_id : Replacing id := fun _ => Or.inl rfl

/-- What is replaced twice is replaced. -/
theorem Replacing.comp (hψ : Replacing ψ) (hφ : Replacing φ) : Replacing (ψ ∘ φ) := by
  intro i
  rcases hφ i with hsame | ⟨hcall, chunk, hchunk⟩
  · have hsame' : (ψ ∘ φ) i = ψ i := congrArg ψ hsame
    rw [hsame']
    exact hψ i
  · refine Or.inr ⟨hcall, chunk, ?_⟩
    have hkept : ψ (.wb chunk) = .wb chunk := by
      rcases hψ (.wb chunk) with hkept | ⟨⟨ns, index, hcall⟩, -⟩
      · exact hkept
      · cases hcall
    exact (congrArg ψ hchunk).trans hkept

/-- An instruction that is no call is not replaced. -/
theorem Replacing.fixes (hφ : Replacing φ) (hnot : ∀ ns index, i ≠ .template ns index) : φ i = i := by
  rcases hφ i with hsame | ⟨⟨ns, index, hcall⟩, -⟩
  · exact hsame
  · exact absurd hcall (hnot ns index)

/-- A replaced instruction jumps as far as it has before. -/
theorem Replacing.distance? (hφ : Replacing φ) (i : Instr) : (φ i).distance? = i.distance? := by
  rcases hφ i with hsame | ⟨⟨ns, index, rfl⟩, chunk, hchunk⟩
  · rw [hsame]
  · rw [hchunk]
    rfl

/-- A replaced instruction changes scopes as it has before. -/
theorem Replacing.scope (hφ : Replacing φ) (vars : List Nat) (i : Instr) :
    (φ i).scope vars = i.scope vars := by
  rcases hφ i with hsame | ⟨⟨ns, index, rfl⟩, chunk, hchunk⟩
  · rw [hsame]
  · rw [hchunk]
    rfl

/-- Only the end of a variable is replaced by one, and by itself. -/
theorem Replacing.eq_unsetVar (hφ : Replacing φ) {name : Nat} (h : φ i = .unsetVar name) :
    i = .unsetVar name := by
  rcases hφ i with hsame | ⟨-, chunk, hchunk⟩
  · rw [← hsame, h]
  · rw [hchunk] at h
    cases h

/-- A replaced instruction refers to what it has referred to before. -/
theorem Replacing.refers {caller : String} {t : Tables} {bindings : List Binding} (hφ : Replacing φ)
    (h : i.Refers caller t bindings) : (φ i).Refers caller t bindings := by
  rcases hφ i with hsame | ⟨-, chunk, hchunk⟩
  · rwa [hsame]
  · rw [hchunk]
    trivial

end Instr

section

variable {φ : Instr → Instr} {code : List Instr} {names : List Nat}

/-- Nothing is replaced in the code of pipelines. -/
theorem Straight.map_replacing (h : Straight code) (hφ : Instr.Replacing φ) : code.map φ = code := by
  have hfixed : ∀ i ∈ code, φ i = id i := by
    intro i hi
    refine hφ.fixes fun ns index heq => ?_
    have hstraight := h i hi
    rw [heq] at hstraight
    cases hstraight
  rw [List.map_congr_left hfixed, List.map_id]

/-- Replacing calls changes no scopes. -/
theorem scopeAfter_map (hφ : Instr.Replacing φ) (vars : List Nat) (code : List Instr) :
    scopeAfter vars (code.map φ) = scopeAfter vars code := by
  induction code generalizing vars with
  | nil => rfl
  | cons i code ih => rw [List.map_cons, scopeAfter_cons, scopeAfter_cons, hφ.scope, ih]

/-- Replacing calls leaves code lexically scoped. -/
theorem Lexical.map (h : Lexical code names) (hφ : Instr.Replacing φ) :
    Lexical (code.map φ) names where
  nested vars := by
    intro pc i' hi'
    rw [List.getElem?_map, Option.map_eq_some_iff] at hi'
    obtain ⟨i, hi, rfl⟩ := hi'
    obtain ⟨hremoves, hjumps⟩ := h.nested vars pc i hi
    simp only [List.nil_append, List.append_nil] at hremoves hjumps ⊢
    rw [← List.map_take, scopeAfter_map hφ]
    refine ⟨fun name hname => hremoves name (hφ.eq_unsetVar hname), fun k hk => ?_⟩
    rw [hφ.distance?] at hk
    obtain ⟨target, htarget, hle, hscope⟩ := hjumps k hk
    refine ⟨target, htarget, by rwa [List.length_map], ?_⟩
    rw [← List.map_take, scopeAfter_map hφ, hscope]
  after vars := by rw [scopeAfter_map hφ, h.after]

end

namespace Program

/-- Whether the code of all templates is lexically scoped. -/
def IsLexical (p : Program) : Prop :=
  ∀ (name : String) (u : CompiledTemplate), p.templates[name]? = some u →
    ∃ names, Lexical u.code.toList names

/-- What a trivial template does in place of its call is to write a chunk. -/
theorem replacing_of_stitches {p : Program} {φ : Instr → Instr} (h : ∀ i, p.Stitches i (φ i)) :
    Instr.Replacing φ := by
  intro i
  rcases h i with hsame | ⟨ns, index, _, _, chunk, hcall, -, -, -, hchunk⟩
  · exact Or.inl hsame
  · exact Or.inr ⟨⟨ns, index, hcall⟩, chunk, hchunk⟩

/-- Stitching a template leaves the tables as they are. -/
theorem tables_stitchTemplate (p : Program) (name : String) :
    (p.stitchTemplate name).tables = p.tables := by
  unfold stitchTemplate
  split <;> rfl

/-- Stitching a template replaces calls in the code of templates and changes nothing else. -/
theorem exists_replacing_stitchTemplate (p : Program) (visited name : String) :
    ∃ φ, Instr.Replacing φ ∧ (p.stitchTemplate visited).templates[name]? =
      (p.templates[name]?).map fun t => { t with code := t.code.map φ } := by
  have hkept : p.templates[name]? = (p.templates[name]?).map fun t => { t with code := t.code.map id } := by
    cases p.templates[name]? <;> simp
  unfold stitchTemplate
  split
  · exact ⟨id, Instr.replacing_id, hkept⟩
  · next t ht =>
    simp only [Std.TreeMap.getElem?_insert]
    split
    · next heq =>
      obtain rfl := Std.compare_eq_iff_eq.mp heq
      exact ⟨p.stitchInstr, replacing_of_stitches p.stitches_stitchInstr, by rw [ht, Option.map_some]⟩
    · exact ⟨id, Instr.replacing_id, hkept⟩

/-- Stitching replaces nothing but calls, and nothing in the tables. -/
theorem exists_replacing_stitchIn (p : Program) (names : List String) (name : String) :
    (p.stitchIn names).tables = p.tables ∧ ∃ φ, Instr.Replacing φ ∧
      (p.stitchIn names).templates[name]? =
        (p.templates[name]?).map fun t => { t with code := t.code.map φ } := by
  induction names generalizing p with
  | nil =>
    refine ⟨rfl, id, Instr.replacing_id, ?_⟩
    rw [stitchIn, List.foldl_nil]
    cases p.templates[name]? <;> simp
  | cons first names ih =>
    obtain ⟨htables, ψ, hψ, hrest⟩ := ih (p.stitchTemplate first)
    obtain ⟨φ, hφ, hfirst⟩ := exists_replacing_stitchTemplate p first name
    refine ⟨htables.trans (tables_stitchTemplate p first), ψ ∘ φ, hψ.comp hφ, ?_⟩
    rw [stitchIn, List.foldl_cons]
    rw [stitchIn, hfirst, Option.map_map] at hrest
    rw [hrest]
    simp only [Function.comp_def, Array.map_map]

end Program

namespace Compile

variable {c : Context} {set : TemplateSet} {registry : Registry} {options : CompileOptions}
  {schema : Schema} {p : Program} {name : String} {tree : Tree} {t : Tables} {u : CompiledTemplate}

/-- Whether a template has been compiled from a tree, apart from calls that have been replaced. -/
def WrittenFrom (c : Context) (tree : Tree) (t : Tables) (u : CompiledTemplate) : Prop :=
  ∃ v φ, CompiledFrom c tree t v ∧ Instr.Replacing φ ∧ u = { v with code := v.code.map φ }

/-- The program of a set before it is stitched, and what becomes of its templates. -/
theorem exists_stitched (hcompile : compile schema registry options set = .ok p) :
    ∃ q, addTemplates set registry options ⟨schema, .initial, .empty, set.root⟩ set.toList = .ok q ∧
      p.tables = q.tables ∧ ∀ name : String, ∃ φ, Instr.Replacing φ ∧
        p.templates[name]? = (q.templates[name]?).map fun t => { t with code := t.code.map φ } := by
  obtain ⟨q, hadd, rfl⟩ := compile_eq_ok hcompile
  refine ⟨q, hadd, ?_⟩
  split
  · exact ⟨(q.exists_replacing_stitchIn q.templateNames "").1,
      fun name => (q.exists_replacing_stitchIn q.templateNames name).2⟩
  · refine ⟨rfl, fun name => ⟨id, Instr.replacing_id, ?_⟩⟩
    cases q.templates[name]? <;> simp

/-- The tables of a program are in step. -/
theorem sound_of_compile (hcompile : compile schema registry options set = .ok p) : p.tables.Sound := by
  obtain ⟨q, hadd, htables, -⟩ := exists_stitched hcompile
  rw [htables]
  exact (addTemplates_adds Tables.sound_initial hadd).sound

/-- Each template of a compiled program is written from a tree of its set. -/
theorem exists_tree_of_compile (hcompile : compile schema registry options set = .ok p)
    (hu : p.templates[name]? = some u) :
    ∃ tree, set.get? name = some tree ∧
      WrittenFrom ⟨set, registry, options, schema, name, tree.source⟩ tree p.tables u := by
  obtain ⟨q, hadd, htables, hstitched⟩ := exists_stitched hcompile
  obtain ⟨φ, hφ, htemplate⟩ := hstitched name
  rw [hu] at htemplate
  obtain ⟨v, hv, rfl⟩ := Option.map_eq_some_iff.mp htemplate.symm
  obtain ⟨tree, htree, hcompiled⟩ := (addTemplates_adds Tables.sound_initial hadd).exists_tree hv
  exact ⟨tree, htree, v, φ, htables ▸ hcompiled, hφ, rfl⟩

/-- Each tree of a set that can be compiled is written to a template of the program. -/
theorem exists_template_of_compile (hcompile : compile schema registry options set = .ok p)
    (htree : set.get? name = some tree) :
    ∃ u, p.templates[name]? = some u ∧
      WrittenFrom ⟨set, registry, options, schema, name, tree.source⟩ tree p.tables u := by
  obtain ⟨q, hadd, htables, hstitched⟩ := exists_stitched hcompile
  obtain ⟨φ, hφ, htemplate⟩ := hstitched name
  obtain ⟨v, hv, hcompiled⟩ := (addTemplates_adds Tables.sound_initial hadd).exists_template htree
  rw [hv, Option.map_some] at htemplate
  exact ⟨_, htemplate, v, φ, htables ▸ hcompiled, hφ, rfl⟩

/-- The code of a template is lexically scoped, if its ranges have no more than two variables. -/
theorem WrittenFrom.exists_lexical (h : WrittenFrom c tree t u)
    (helements : Node.allBindElements tree.root.nodes) : ∃ names, Lexical u.code.toList names := by
  obtain ⟨v, φ, ⟨s, f, s', hnodes, -, -, -, rfl⟩, hφ, rfl⟩ := h
  obtain ⟨code, names, hadds, hwrites⟩ := yields_nodes tree.root.nodes .empty s f s' hnodes
  have hadds : f.code.toList = code := hadds
  rw [Array.toList_map, hadds]
  exact ⟨names, (hwrites.lexical helements).map hφ⟩

/-- The templates of a program are lexically scoped, if no range of its set has more than two
variables. -/
theorem isLexical_of_compile (hcompile : compile schema registry options set = .ok p)
    (helements : ∀ name tree, set.get? name = some tree → Node.allBindElements tree.root.nodes) :
    p.IsLexical := by
  intro name u hu
  obtain ⟨tree, htree, hwritten⟩ := exists_tree_of_compile hcompile hu
  exact hwritten.exists_lexical (helements name tree htree)

/-- The pipelines of a template lie in its code. -/
theorem WrittenFrom.holds (h : WrittenFrom c tree t u) :
    ∀ pipe ∈ Node.allPipelines tree.root.nodes, Holds c t u.code.toList pipe := by
  obtain ⟨v, φ, ⟨s, f, s', hnodes, hs, -, hextends, rfl⟩, hφ, rfl⟩ := h
  obtain ⟨code, names, hadds, hwrites⟩ := yields_nodes tree.root.nodes .empty s f s' hnodes
  have hadds : f.code.toList = code := hadds
  rw [Array.toList_map, hadds]
  intro pipe hpipe
  obtain ⟨s₀, g, s₁, hs₀, hrun, ht, hstraight, hplace⟩ := hwrites.holds hs pipe hpipe
  refine ⟨s₀, g, s₁, hs₀, hrun, ht.trans hextends, hstraight, hplace.imp_left fun henclosed => ?_⟩
  have hmapped := henclosed.map hφ.distance?
  rwa [hstraight.map_replacing hφ] at hmapped

/-- The instructions of a template refer to the namespaces and the variables of the template. -/
theorem WrittenFrom.refers (h : WrittenFrom c tree t u) :
    ∀ i ∈ u.code.toList, i.Refers c.name t (Node.allBindings tree.root.nodes) := by
  obtain ⟨v, φ, ⟨s, f, s', hnodes, hs, -, hextends, rfl⟩, hφ, rfl⟩ := h
  obtain ⟨code, names, hadds, hwrites⟩ := yields_nodes tree.root.nodes .empty s f s' hnodes
  have hadds : f.code.toList = code := hadds
  rw [Array.toList_map, hadds]
  intro i' hi'
  obtain ⟨i, hi, rfl⟩ := List.mem_map.mp hi'
  exact hφ.refers ((hwrites.refers hs i hi).mono hextends (List.Subset.refl _))

end Compile
end Stencil
