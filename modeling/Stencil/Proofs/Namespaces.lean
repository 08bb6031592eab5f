import Stencil.Proofs.Points
import Stencil.Proofs.Views

/-!
# Namespaced templates

What runs of a program see of the render variables. A template call unpacks what its caller sees, in
the namespace of its target as seen from that of the caller. So a template of a namespace sees the
variables of its namespace if no other namespace has been entered in front of it; behind a template of
another namespace, its own variables are gone.
-/

namespace Stencil

namespace Bindings

variable {name other : Nat} {v : Value} {bindings after : List (Nat × Value)}

/-- A binding of another variable on top is passed over. -/
theorem get?_cons_of_ne (hne : other ≠ name) (v : Value) (bindings : List (Nat × Value)) :
    get? name ((other, v) :: bindings) = get? name bindings := by
  simp [get?, hne]

/-- To remove a variable does not change what others are bound to. -/
theorem get?_remove? (hne : other ≠ name) (h : remove? other bindings = some after) :
    get? name after = get? name bindings := by
  induction bindings generalizing after with
  | nil => cases h
  | cons b rest ih =>
    obtain ⟨x, v⟩ := b
    rw [remove?] at h
    split at h
    · next hx =>
      obtain rfl : x = other := hx
      cases h
      exact (get?_cons_of_ne hne v rest).symm
    · obtain ⟨rest', hrest, rfl⟩ := Option.map_eq_some_iff.mp h
      have hsame := ih hrest
      unfold get? at hsame ⊢
      rw [List.find?_cons, List.find?_cons]
      split
      · rfl
      · exact hsame

/-- To assign a variable does not change what others are bound to. -/
theorem get?_assign? (hne : other ≠ name) (h : assign? other v bindings = some after) :
    get? name after = get? name bindings := by
  have hkeeps : Keeps (fun _ x => x ≠ name) [] bindings after :=
    (Keeps.refl bindings).assign h fun _ _ => hne
  exact hkeeps.get?

end Bindings

namespace Machine

variable {schema : Schema} {t : Tables} {i : Instr} {m m' : Machine} {name : Nat} {vars : Vars}

/-- An instruction that neither binds nor removes a variable does not change what it is bound to. -/
theorem get?_of_step_next (hset : ∀ x assign, i = .setVar x assign → x ≠ name)
    (hunset : ∀ x, i = .unsetVar x → x ≠ name) (h : m.step schema t i = .next m') :
    Bindings.get? name m'.bindings = Bindings.get? name m.bindings := by
  have hadvances := step_eq_next.mp h
  cases hadvances with
  | declare => exact Bindings.get?_cons_of_ne (hset _ _ rfl) _ _
  | assign _ hassign => exact Bindings.get?_assign? (hset _ _ rfl) hassign
  | unsetVar hremove => exact Bindings.get?_remove? (hunset _ rfl) hremove
  | _ => rfl

/-- An activation in a namespace sees the view from there. -/
theorem get?_activate (hvars : Entries.Ordered vars.entries)
    (hbound : Bindings.get? Tables.varsVar m.bindings = some vars.toValue) (ns : String) (v : Value) :
    Bindings.get? Tables.varsVar (m.activate ns v).bindings = some (vars.seenIn ns).toValue := by
  have hroot : Bindings.get? Tables.varsVar ((Tables.rootVar, v) :: m.bindings) = some vars.toValue := by
    rw [Bindings.get?_cons_of_ne (by decide), hbound]
  rw [activate, Vars.seenIn]
  split
  · exact hroot
  · next hns =>
    have hne : ns ≠ "" := by simpa [String.isEmpty_iff] using hns
    rw [Vars.toValue_eq hvars] at hroot
    simp only [bind, hroot, Vars.unpackMap_eq hne, Bindings.get?_cons_self]

end Machine

/-- A variable of the scope behind code is declared in the code. -/
theorem mem_scopeAfter {x : Nat} {vars : List Nat} {code : List Instr} (h : x ∈ scopeAfter vars code) :
    x ∈ vars ∨ .setVar x false ∈ code := by
  induction code generalizing vars with
  | nil => exact .inl h
  | cons i code ih =>
    rcases ih h with h | h
    · unfold Instr.scope at h
      split at h
      · rcases List.mem_cons.mp h with rfl | h
        · exact .inr List.mem_cons_self
        · exact .inl h
      · exact .inl (List.mem_of_mem_tail h)
      · exact .inl h
    · exact .inr (List.mem_cons_of_mem _ h)

/-- What is removed in lexically scoped code has been declared there. -/
theorem Lexical.mem_setVar {code : List Instr} {names : List Nat} {pc x : Nat} (h : Lexical code names)
    (hi : code[pc]? = some (.unsetVar x)) : .setVar x false ∈ code := by
  have hdeclared : x ∈ scopeAfter [] (code.take pc) := List.mem_of_head? (h.head?_unsetVar hi)
  exact (mem_scopeAfter hdeclared).elim (fun h => nomatch h) List.mem_of_mem_take

namespace Program

/-- Whether the templates of a program leave the render variables to their calls, which unpack them in
the namespace of their target as seen from that of their caller. -/
structure Namespaced (p : Program) : Prop where
  lexical : p.IsLexical
  binds : ∀ (name : String) (u : CompiledTemplate) (x : Nat) (assign : Bool),
    p.templates[name]? = some u → .setVar x assign ∈ u.code.toList → x ≠ Tables.varsVar
  calls : ∀ (name : String) (u : CompiledTemplate) (ns index : Nat), p.templates[name]? = some u →
    .template ns index ∈ u.code.toList → ∃ target, p.tables.strings[index]? = some target ∧
      p.tables.strings[ns]? = some (Namespace.relative (Namespace.of name) (Namespace.of target))

variable {p : Program} {start P : Point} {vars : Vars}

/-- Whether a point is in the code of the innermost template of its chain. -/
def InTemplate (p : Program) (P : Point) : Prop :=
  ∃ name outer u, P.chain = name :: outer ∧ p.templates[name]? = some u ∧ P.code = u.code.toList

/-- A run stays in the templates of its program. -/
theorem Reaches.inTemplate (hstart : p.InTemplate start) (h : p.Reaches start P) : p.InTemplate P := by
  induction h with
  | refl => exact hstart
  | next _ _ _ ih => exact ih
  | jump _ _ _ _ ih => exact ih
  | call _ _ _ hu _ => exact ⟨_, _, _, rfl, hu, rfl⟩

/-- A run of a namespaced program never assigns the render variables. -/
theorem Namespaced.assignsOnly (hp : p.Namespaced) (hstart : p.InTemplate start) :
    p.AssignsOnly (fun _ x => x ≠ Tables.varsVar) start := by
  intro P hreach x hi _ _
  obtain ⟨name, outer, u, -, hu, hcode⟩ := hreach.inTemplate hstart
  rw [hcode] at hi
  exact hp.binds name u x true hu (List.mem_of_getElem? hi)

/-- The namespace that a call passes to its target. -/
theorem Namespaced.callee (hp : p.Namespaced) {name nsName target : String} {u : CompiledTemplate}
    {ns index : Nat} {m : Machine} {v : Value} (hu : p.templates[name]? = some u)
    (hi : .template ns index ∈ u.code.toList) (h : m.callee p ns index = .ok (nsName, target, v)) :
    nsName = Namespace.relative (Namespace.of name) (Namespace.of target) := by
  obtain ⟨target', htarget, hns⟩ := hp.calls name u ns index hu hi
  unfold Machine.callee at h
  rw [htarget, hns] at h
  split at h
  · next hns' htarget' _ =>
    cases hns'
    cases htarget'
    cases h
    rfl
  · cases h
  · cases h

/-- Wherever a run gets, the variables are those that are seen along the calls that have led there. -/
theorem Reaches.sees (hp : p.Namespaced) (hvars : Entries.Ordered vars.entries)
    (hstart : p.InTemplate start)
    (hsees : Bindings.get? Tables.varsVar start.machine.bindings =
      some (vars.seenAlong start.chain).toValue) (h : p.Reaches start P) :
    Bindings.get? Tables.varsVar P.machine.bindings = some (vars.seenAlong P.chain).toValue := by
  induction h with
  | refl => exact hsees
  | @next P i m hreach hi hdo ih =>
    obtain ⟨name, outer, u, -, hu, hcode⟩ := hreach.inTemplate hstart
    suffices hsame : Bindings.get? Tables.varsVar m.bindings =
        Bindings.get? Tables.varsVar P.machine.bindings from hsame.trans ih
    by_cases hcall : ∃ ns index, i = .template ns index
    · obtain ⟨ns, index, rfl⟩ := hcall
      have honly := (hp.assignsOnly hstart).of_reaches hreach
      exact (keeps_call hp.lexical hi honly hdo).get?
    · have hnot : ∀ ns index, i ≠ .template ns index := fun ns index heq => hcall ⟨ns, index, heq⟩
      have hstep := (Env.instr_eq_done hnot).mp hdo
      rw [hcode] at hi
      refine Machine.get?_of_step_next (fun x assign heq => ?_) (fun x heq => ?_) hstep
      · exact hp.binds name u x assign hu (heq ▸ List.mem_of_getElem? hi)
      · obtain ⟨names, hlexical⟩ := hp.lexical name u hu
        exact hp.binds name u x false hu (hlexical.mem_setVar (heq ▸ hi))
  | jump _ _ hstep _ ih =>
    rw [Machine.bindings_of_step_jump hstep]
    exact ih
  | @call P ns index nsName target v u' hreach hi hcallee hu' ih =>
    obtain ⟨name, outer, u, hchain, hu, hcode⟩ := hreach.inTemplate hstart
    rw [hcode] at hi
    rw [Machine.get?_activate (Vars.ordered_seenAlong hvars _) ih,
      hp.callee hu (List.mem_of_getElem? hi) hcallee, hchain]
    rfl

/-- The outermost template of the chain is the one that the run has been started at. -/
theorem Reaches.exists_chain {name : String} {inner : List String}
    (hstart : start.chain = inner ++ [name]) (h : p.Reaches start P) :
    ∃ inner, P.chain = inner ++ [name] := by
  induction h with
  | refl => exact ⟨inner, hstart⟩
  | next _ _ _ ih => exact ih
  | jump _ _ _ _ ih => exact ih
  | @call P ns index nsName target v u _ _ _ _ ih =>
    obtain ⟨inner, hinner⟩ := ih
    exact ⟨target :: inner, by rw [hinner, List.cons_append]⟩

end Program

namespace Compile

variable {schema : Schema} {registry : Registry} {options : CompileOptions} {set : TemplateSet}
  {p : Program}

/-- The strings of a program start with the names of the variables that the machine uses. -/
theorem extends_initial (hcompile : compile schema registry options set = .ok p) :
    Tables.initial.Extends p.tables := by
  obtain ⟨q, hadd, htables, -⟩ := exists_stitched hcompile
  have hadds := addTemplates_adds Tables.sound_initial hadd
  exact htables ▸ hadds.extends_

/-- A program is namespaced if no template of its set binds the render variables and no range has more
than two variables. -/
theorem namespaced_of_compile (hcompile : compile schema registry options set = .ok p)
    (helements : ∀ name tree, set.get? name = some tree → Node.allBindElements tree.root.nodes)
    (hbindings : ∀ name tree, set.get? name = some tree →
      ∀ b ∈ Node.allBindings tree.root.nodes, b.variable_.name ≠ "Vars") : p.Namespaced where
  lexical := isLexical_of_compile hcompile helements
  binds := by
    rintro name u x assign hu hi rfl
    obtain ⟨tree, htree, hwritten⟩ := exists_tree_of_compile hcompile hu
    obtain ⟨b, hb, hname⟩ := hwritten.refers _ hi
    have hvars : p.tables.strings[Tables.varsVar]? = some "Vars" :=
      (extends_initial hcompile).strings _ _ rfl
    rw [hvars] at hname
    exact hbindings name tree htree b hb (Option.some.inj hname).symm
  calls := by
    intro name u ns index hu hi
    obtain ⟨tree, htree, hwritten⟩ := exists_tree_of_compile hcompile hu
    exact hwritten.refers _ hi

/-- What the templates of a set see of the render variables, in a run that starts outside of all
namespaces. It is what is seen along the calls that have led to them. In particular, if these calls
have entered no other namespace than that of the template, it is the view from there: the variables of
the namespace, and else those of no namespace. -/
theorem namespaces_see_their_variables (hcompile : compile schema registry options set = .ok p)
    (helements : ∀ name tree, set.get? name = some tree → Node.allBindElements tree.root.nodes)
    (hbindings : ∀ name tree, set.get? name = some tree →
      ∀ b ∈ Node.allBindings tree.root.nodes, b.variable_.name ≠ "Vars")
    {name : String} {u : CompiledTemplate} (hname : Namespace.isQualified name = false)
    (hu : p.templates[name]? = some u) (entries : List (String × Value)) (data : Value) (m : Machine)
    {P : Point} (hreach : p.Reaches (Program.startPoint name u data (Vars.ofList entries).toValue m) P) :
    Bindings.get? Tables.varsVar P.machine.bindings =
        some ((Vars.ofList entries).seenAlong P.chain).toValue ∧
      ∀ ns inside outside, P.chain = inside ++ outside → inside ≠ [] → ns ≠ "" →
        (∀ name ∈ inside, Namespace.of name = ns) → (∀ name ∈ outside, Namespace.of name = "") →
        (Vars.ofList entries).seenAlong P.chain = (Vars.ofList entries).unpack ns ∧
          ∀ key, ((Vars.ofList entries).unpack ns).get? key =
            ((Vars.ofList entries).get? (ns ++ "|" ++ key)).or
              (if Namespace.isQualified key then none else (Vars.ofList entries).get? key) := by
  have hordered := Vars.ordered_ofList entries
  have hp := namespaced_of_compile hcompile helements hbindings
  constructor
  · have hstart : Bindings.get? Tables.varsVar ((m.bind Tables.varsVar
        (Vars.ofList entries).toValue).activate "" data).bindings =
          some (Vars.ofList entries).toValue :=
      Machine.get?_activate hordered (Bindings.get?_cons_self _ _ _) "" data
    exact hreach.sees hp hordered ⟨name, [], u, rfl, hu, rfl⟩ hstart
  · intro ns inside outside hchain hend hns hinside houtside
    obtain ⟨inner, hinner⟩ : ∃ inner, P.chain = inner ++ [name] :=
      Program.Reaches.exists_chain (List.nil_append [name]).symm hreach
    have hstart : outside ≠ [] := by
      rintro rfl
      rw [List.append_nil, hinner] at hchain
      have hof := hinside name (hchain ▸ List.mem_append_right inner (List.mem_singleton_self name))
      rw [Namespace.of, hname] at hof
      exact hns hof.symm
    refine ⟨?_, fun key => Vars.get?_unpack hordered ns key⟩
    rw [hchain]
    exact Vars.seenAlong_inside hns hinside houtside hstart hend

end Compile

/-! ### Samples -/

namespace Sample

/-- A template of the namespace `a` calls one of the namespace `b`, which writes `{{$Vars.k}}`. -/
def hop : TemplateSet :=
  ((TemplateSet.ofRoot ⟨"main", ⟨0, [.template 0 "a|x" none]⟩, none⟩).insert
    ⟨"a|x", ⟨0, [.template 0 "b|y" none]⟩, none⟩).insert
      ⟨"b|y", ⟨0, [.action 0 (.mk 0 false [] [.mk 0 [.var ⟨0, ["$Vars", "k"]⟩]])]⟩, none⟩

/-- The target of the call without data that the code of a template starts with. -/
def firstCall? (p : Program) (name : String) : Option String := do
  let u ← p.templates[name]?
  match u.code.toList with
  | .val index :: .template ns target :: _ =>
    let _ ← p.tables.values[index]?
    let _ ← p.tables.strings[ns]?
    p.tables.strings[target]?
  | _ => none

variable {p : Program} {start : Point} {name target : String} {outer : List String}
  {u u' : CompiledTemplate} {m : Machine}

/-- The first call is reached, with its data on top of the stack. -/
theorem exists_beforeCall (hcall : firstCall? p name = some target) (hu : p.templates[name]? = some u)
    (hreach : p.Reaches start ⟨name :: outer, u.code.toList, 0, m⟩) :
    ∃ ns index nsName v, u.code.toList[1]? = some (.template ns index) ∧
      p.Reaches start ⟨name :: outer, u.code.toList, 1, m.push v⟩ ∧
      (m.push v).callee p ns index = .ok (nsName, target, v) := by
  simp only [firstCall?, hu, Option.bind_eq_bind, Option.bind_some] at hcall
  split at hcall
  · next index ns targetIndex rest hcode =>
    obtain ⟨v, hv, nsName, hns, htarget⟩ : ∃ v, p.tables.values[index]? = some v ∧
        ∃ nsName, p.tables.strings[ns]? = some nsName ∧
          p.tables.strings[targetIndex]? = some target := by
      simpa only [Option.bind_eq_some_iff] using hcall
    have hstep : m.step p.schema p.tables (.val index) = .next (m.push v) := by
      simp only [Machine.step, hv]
    have hnext := hreach.next (by rw [hcode]; rfl)
      ((Env.instr_eq_done fun _ _ heq => Instr.noConfusion heq).mpr hstep)
    have hcallee : (m.push v).callee p ns targetIndex = .ok (nsName, target, v) := by
      simp only [Machine.callee, Machine.push, hns, htarget]
    exact ⟨ns, targetIndex, nsName, v, by rw [hcode]; rfl, hnext, hcallee⟩
  · cases hcall

/-- The start of the first template that is called is reached. -/
theorem exists_firstCall (hcall : firstCall? p name = some target) (hu : p.templates[name]? = some u)
    (hu' : p.templates[target]? = some u')
    (hreach : p.Reaches start ⟨name :: outer, u.code.toList, 0, m⟩) :
    ∃ m', p.Reaches start ⟨target :: name :: outer, u'.code.toList, 0, m'⟩ := by
  obtain ⟨ns, index, nsName, v, hi, hbefore, hcallee⟩ := exists_beforeCall hcall hu hreach
  exact ⟨_, hbefore.call hi hcallee hu'⟩

/-- The templates that call each other in the sample. -/
theorem exists_hop : ∃ p u a b, Compile.compile .plain .empty .standard hop = .ok p ∧
    p.templates["main"]? = some u ∧ p.templates["a|x"]? = some a ∧ p.templates["b|y"]? = some b ∧
    firstCall? p "main" = some "a|x" ∧ firstCall? p "a|x" = some "b|y" := by
  obtain ⟨p, hp⟩ : ∃ p, Compile.compile .plain .empty .standard hop = .ok p :=
    Compile.exists_of_isOk (by decide +kernel)
  have hall : (Compile.compile .plain .empty .standard hop).toOption.all fun p =>
      p.templates["main"]?.isSome && p.templates["a|x"]?.isSome && p.templates["b|y"]?.isSome &&
        firstCall? p "main" == some "a|x" && firstCall? p "a|x" == some "b|y" := by
    decide +kernel
  rw [hp] at hall
  simp only [Except.toOption, Option.all_some, Bool.and_eq_true, beq_iff_eq,
    Option.isSome_iff_exists] at hall
  obtain ⟨⟨⟨⟨⟨u, hu⟩, a, ha⟩, b, hb⟩, hmain⟩, hx⟩ := hall
  exact ⟨p, u, a, b, hp, hu, ha, hb, hmain, hx⟩

/-- The templates of the sample bind the elements of their ranges only. -/
theorem allBindElements_hop (name : String) (tree : Tree) (h : hop.get? name = some tree) :
    Node.allBindElements tree.root.nodes := by
  have hall : ∀ e ∈ hop.toList, Node.allBindElements e.2.root.nodes := by decide +kernel
  exact hall _ (Compile.mem_toList_iff.mpr h)

/-- The templates of the sample declare no variable of the name of the render variables. -/
theorem name_ne_vars_hop (name : String) (tree : Tree) (h : hop.get? name = some tree) :
    ∀ b ∈ Node.allBindings tree.root.nodes, b.variable_.name ≠ "Vars" := by
  have hall : ∀ e ∈ hop.toList, ∀ b ∈ Node.allBindings e.2.root.nodes, b.variable_.name ≠ "Vars" := by
    decide +kernel
  exact hall _ (Compile.mem_toList_iff.mpr h)

end Sample

namespace Compile

/-- The first template that the sample calls sees the variables of its namespace. -/
theorem namespaces_see_their_variables_sample :
    ∃ p u P, compile .plain .empty .standard Sample.hop = .ok p ∧ p.templates["main"]? = some u ∧
      p.Reaches (Program.startPoint "main" u .nil
        (Vars.ofList [("k", .str "all"), ("a|k", .str "A")]).toValue (.fresh .unlimited .none)) P ∧
      P.chain = ["a|x", "main"] ∧
      Bindings.get? Tables.varsVar P.machine.bindings =
        some ((Vars.ofList [("k", .str "all"), ("a|k", .str "A")]).unpack "a").toValue := by
  obtain ⟨p, u, a, b, hp, hu, ha, hb, hmain, hx⟩ := Sample.exists_hop
  obtain ⟨m, hreach⟩ := Sample.exists_firstCall hmain hu ha
    (.refl : p.Reaches (Program.startPoint "main" u .nil
      (Vars.ofList [("k", .str "all"), ("a|k", .str "A")]).toValue (.fresh .unlimited .none)) _)
  refine ⟨p, u, _, hp, hu, hreach, rfl, ?_⟩
  obtain ⟨hsees, hview⟩ := namespaces_see_their_variables hp Sample.allBindElements_hop
    Sample.name_ne_vars_hop (by decide) hu _ _ _ hreach
  obtain ⟨hunpack, -⟩ := hview "a" ["a|x"] ["main"] rfl (by decide) (by decide) (by decide) (by decide)
  rw [hsees, hunpack]

/-- The second one does not: its variables are gone from what the first one sees. -/
theorem namespace_loses_variables :
    ∃ p u P, compile .plain .empty .standard Sample.hop = .ok p ∧ p.templates["main"]? = some u ∧
      p.Reaches (Program.startPoint "main" u .nil (Vars.ofList [("b|k", .str "B")]).toValue
        (.fresh .unlimited .none)) P ∧
      P.chain = ["b|y", "a|x", "main"] ∧
      Bindings.get? Tables.varsVar P.machine.bindings ≠
        some ((Vars.ofList [("b|k", .str "B")]).unpack "b").toValue := by
  obtain ⟨p, u, a, b, hp, hu, ha, hb, hmain, hx⟩ := Sample.exists_hop
  obtain ⟨m, hfirst⟩ := Sample.exists_firstCall hmain hu ha
    (.refl : p.Reaches (Program.startPoint "main" u .nil
      (Vars.ofList [("b|k", .str "B")]).toValue (.fresh .unlimited .none)) _)
  obtain ⟨m', hsecond⟩ := Sample.exists_firstCall hx ha hb hfirst
  refine ⟨p, u, _, hp, hu, hsecond, rfl, ?_⟩
  have hordered := Vars.ordered_ofList [("b|k", .str "B")]
  rw [hsecond.sees (namespaced_of_compile hp Sample.allBindElements_hop Sample.name_ne_vars_hop)
    hordered ⟨"main", [], u, rfl, hu, rfl⟩ rfl]
  intro heq
  rw [Option.some.injEq, Vars.toValue_eq (Vars.ordered_seenAlong hordered _),
    Vars.toValue_eq (Vars.ordered_unpack _ _), Value.map.injEq] at heq
  have hnot : ((Vars.ofList [("b|k", .str "B")]).seenAlong ["b|y", "a|x", "main"]).entries.length ≠
      ((Vars.ofList [("b|k", .str "B")]).unpack "b").entries.length := by decide
  have hlength := congrArg List.length heq.2
  rw [Entries.mapKeys, Entries.mapKeys, List.length_map, List.length_map] at hlength
  exact hnot hlength

end Compile
end Stencil
