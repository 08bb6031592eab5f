import Stencil.Proofs.Executions
import Stencil.Proofs.Guards
import Stencil.Proofs.Mirroring
import Stencil.Proofs.Safety

/-!
# Independence of template calls

A template call does what a render of its target with the data of the call and the variables that it
passes on does, if it accesses no other variables of its caller. Both runs go through the same
instructions, the one on top of what the caller has left on the stacks, and the other on empty stacks, on
which compiled code never misses a value. When the call is over, its caller finds everything as it was.
-/

namespace Stencil

/-- The render variables that a call in a namespace passes on if its caller sees the given ones. -/
def Value.seenIn (ns : String) : Value → Value
  | .map kind entries => unpackMap kind entries ns
  | vars => vars

namespace Run

/-- Whether runs end the same way, on machines in a relation or with an error after the same output. -/
inductive Agrees (R : Machine → Machine → Prop) : Run → Run → Prop where
  | done {m m' : Machine} : R m m' → Agrees R (.done m) (.done m')
  | failed {m m' : Machine} (e : ExecutionError) : m.sink = m'.sink → m.streams = m'.streams →
      Agrees R (.failed e m) (.failed e m')
  | outOfFuel : Agrees R .outOfFuel .outOfFuel

/-- Whether a run does not fail because its code is malformed. -/
def IsValid (r : Run) : Prop := ∀ e m, r = .failed e m → ∀ reason, e.kind ≠ .invalidCode reason

end Run

/-- An error that has a place keeps it. -/
theorem ExecutionError.orLocate_of_isSome {e : ExecutionError} (h : e.location.isSome)
    (location : Option Location) : e.orLocate location = e := by
  rw [orLocate, Option.or_of_isSome h]

namespace Program

/-- Whether a run from a point accesses no variable that is bound in the outermost `n` places, apart from
reading the data and the render variables. -/
def AccessesAbove (p : Program) (n : Nat) (start : Point) : Prop :=
  ∀ P, p.Reaches start P →
    (∀ name, P.code[P.pc]? = some (.var name) → name = Tables.rootVar ∨ name = Tables.varsVar ∨
      Bindings.Above n name P.machine.bindings) ∧
    ∀ name, P.code[P.pc]? = some (.setVar name true) → Bindings.Above n name P.machine.bindings

variable {p : Program} {start start' P : Point} {fuel pc ns index : Nat} {name nsName target : String}
  {t u : CompiledTemplate} {m m' after : Machine} {v : Value} {names own : List Nat} {F : Frame}
  {base : List (Nat × Value)} {chain chain' : List String}

/-- A call of a template as a run: its target runs on an activation of its own, behind which the one that
has made the call goes on. -/
def called (p : Program) (fuel : Nat) (place : Option Location) (ns index : Nat) (m : Machine) : Run :=
  match m.callee p ns index with
  | .error e => .failed ⟨e, place⟩ m
  | .ok (nsName, target, v) =>
    match p.templates[target]? with
    | none => .failed ⟨.undefinedTemplate target, place⟩ m
    | some u =>
      match p.runFrom fuel target u 0 (m.activate nsName v) with
      | .done after => .done (m.leave after)
      | .failed e after => .failed (e.orLocate place) after
      | .outOfFuel => .outOfFuel

/-- A run that is at a template call makes the call and goes on. -/
theorem runFrom_of_template (hi : t.code[pc]? = some (.template ns index)) :
    p.runFrom (fuel + 1) name t pc m =
      match p.called fuel (t.locate name pc) ns index m with
      | .done m' => p.runFrom fuel name t (pc + 1) m'
      | .failed e m' => .failed e m'
      | .outOfFuel => .outOfFuel := by
  rw [runFrom, hi, called]
  simp only
  cases m.callee p ns index with
  | error e => rfl
  | ok callee =>
    simp only
    cases p.templates[callee.2.1]? with
    | none => rfl
    | some u =>
      simp only
      cases p.runFrom fuel callee.2.1 u 0 (m.activate callee.1 callee.2.2) <;> rfl

/-- What a call does if its target exists. -/
theorem called_of_callee {place : Option Location}
    (hcallee : m.callee p ns index = .ok (nsName, target, v)) (hu : p.templates[target]? = some u) :
    p.called fuel place ns index m =
      match p.runFrom fuel target u 0 (m.activate nsName v) with
      | .done after => .done (m.leave after)
      | .failed e after => .failed (e.orLocate place) after
      | .outOfFuel => .outOfFuel := by
  simp only [called, hcallee, hu]

/-- A call that is over has done what its instruction does. -/
theorem instr_of_done (hcallee : m.callee p ns index = .ok (nsName, target, v))
    (hu : p.templates[target]? = some u)
    (hrun : p.runFrom fuel target u 0 (m.activate nsName v) = .done after) :
    p.env.instr (.template ns index) m (.done (m.leave after)) := by
  have hcall : p.call ns index m (.done (m.leave after)) := by
    unfold call enter
    simp only [hcallee, hu]
    exact ⟨.done after, ⟨fuel, congrArg Run.outcome? hrun⟩, rfl⟩
  exact hcall

/-- A call that has come to its end is one of the program. -/
theorem instr_of_called {place : Option Location} (h : p.called fuel place ns index m = .done after) :
    p.env.instr (.template ns index) m (.done after) := by
  unfold called at h
  split at h
  · cases h
  · next nsName target v hcallee =>
    split at h
    · cases h
    · next u hu =>
      split at h
      · next inner hrun =>
        cases h
        exact instr_of_done hcallee hu hrun
      · cases h
      · cases h

/-- Wherever a run is about to remove a variable, that is the innermost one, and it has been bound since
the start of the run. -/
theorem Reaches.exists_innermost (hp : p.IsLexical) (hstart : Lexical start.code names)
    (hzero : start.pc = 0) (h : p.Reaches start P) {x : Nat}
    (hi : P.code[P.pc]? = some (.unsetVar x)) :
    ∃ v rest, P.machine.bindings = (x, v) :: rest ∧ start.machine.bindings.length ≤ rest.length := by
  have honly : p.AssignsOnly (fun _ _ => True) start := fun _ _ _ _ _ _ => trivial
  obtain ⟨names, above, hcode, hkeeps⟩ := h.keeps hp hstart hzero honly
  obtain ⟨vars, hvars⟩ := List.head?_eq_some_iff.mp (hcode.head?_unsetVar hi)
  have hnames := hkeeps.names
  rw [hvars, List.cons_append, List.cons_append] at hnames
  obtain ⟨⟨y, v⟩, rest, hbindings, rfl, hrest⟩ := List.map_eq_cons_iff.mp hnames
  have hlength := congrArg List.length hrest
  simp only [List.length_map, List.length_append] at hlength
  exact ⟨v, rest, hbindings, by omega⟩

/-- Two machines with the same value on top call the same template. -/
theorem callee_of_mirrors (h : m.Mirrors F own base m')
    (hcallee : m'.callee p ns index = .ok (nsName, target, v)) :
    m.callee p ns index = .ok (nsName, target, v) := by
  obtain ⟨bindings, rfl, -⟩ := h
  unfold Machine.callee at hcallee ⊢
  split at hcallee
  · next stack hns hname hstack =>
    cases hcallee
    have hstack' : (m'.onto F bindings).stack = v :: (stack ++ F.stack) := by
      simp only [Machine.onto, hstack, List.cons_append]
    simp only [hns, hname, hstack']
  · cases hcallee
  · cases hcallee

/-- A call that names no template, or no data, is malformed. -/
theorem callee_eq_error {e : RuntimeError} (h : m.callee p ns index = .error e) :
    ∃ reason, e = .invalidCode reason := by
  unfold Machine.callee at h
  split at h <;> cases h <;> exact ⟨_, rfl⟩

/-- Whether the code of all templates is structured and lexically scoped, where all conditions leave a
value. -/
structure IsGuarded (p : Program) : Prop where
  lexical : p.IsLexical
  structured : ∀ (name : String) (u : CompiledTemplate), p.templates[name]? = some u →
    Structured True u.code.toList

/-- One step of runs on machines that mirror each other. -/
theorem IsGuarded.agrees_step {i : Instr} (hp : p.IsGuarded)
    (haccesses : p.AccessesAbove base.length start) (hstart : Lexical start'.code names)
    (hzero : start'.pc = 0) (hbound : start'.machine.bindings.length = 2)
    (hcode : Structured True t.code.toList) (hi : t.code.toList[pc]? = some i)
    (hreach : p.Reaches start ⟨chain, t.code.toList, pc, m⟩)
    (hreach' : p.Reaches start' ⟨chain', t.code.toList, pc, m'⟩) (hmirrors : m.Mirrors F own base m')
    (hvalid : (m'.step p.schema p.tables i).IsValid) :
    Step.Agrees (Machine.Mirrors F own base) (m.step p.schema p.tables i)
      (m'.step p.schema p.tables i) := by
  have haccess := haccesses _ hreach
  refine hmirrors.step hvalid (fun x hx => haccess.1 x (hx ▸ hi)) (fun x hx => haccess.2 x (hx ▸ hi))
    (fun x hx => ?_) (fun k hk => ?_) (fun k hk => ?_)
  · obtain ⟨v, rest, hinnermost, hrest⟩ :=
      hreach'.exists_innermost hp.lexical hstart hzero (hx ▸ hi)
    exact ⟨v, rest, hinnermost, hbound ▸ hrest⟩
  · have hguarded : GuardedAt t.code.toList pc :=
      hcode.guardedAt (.refl _) (hk ▸ hi) (Nat.zero_add pc).symm
    obtain ⟨v, stack, hstack⟩ := hreach'.exists_decided hzero hguarded
    rw [show m'.stack = v :: stack from hstack]
    exact List.cons_ne_nil v stack
  · exact hcode.not_jmpt (List.mem_of_getElem? (hk ▸ hi))

/-- A call does the same on machines that mirror each other, if the run of its target does. -/
theorem agrees_called {place : Option Location} (hmirrors : m.Mirrors F own base m')
    (hvalid : (p.called fuel place ns index m').IsValid)
    (hbody : ∀ nsName target v u, m.callee p ns index = .ok (nsName, target, v) →
      m'.callee p ns index = .ok (nsName, target, v) → p.templates[target]? = some u →
      (p.runFrom fuel target u 0 (m'.activate nsName v)).IsValid →
      Run.Agrees (Machine.Mirrors F own base) (p.runFrom fuel target u 0 (m.activate nsName v))
        (p.runFrom fuel target u 0 (m'.activate nsName v))) :
    Run.Agrees (Machine.Mirrors F own base) (p.called fuel place ns index m)
      (p.called fuel place ns index m') := by
  cases hcallee' : m'.callee p ns index with
  | error e =>
    obtain ⟨reason, rfl⟩ := callee_eq_error hcallee'
    simp only [called, hcallee'] at hvalid
    exact absurd rfl (hvalid _ _ rfl reason)
  | ok callee =>
    obtain ⟨nsName, target, v⟩ := callee
    have hcallee := callee_of_mirrors hmirrors hcallee'
    cases hu : p.templates[target]? with
    | none =>
      simp only [called, hcallee, hcallee', hu]
      obtain ⟨bindings, rfl, -⟩ := hmirrors
      exact .failed _ rfl rfl
    | some u =>
      rw [called_of_callee hcallee' hu] at hvalid
      rw [called_of_callee hcallee hu, called_of_callee hcallee' hu]
      have hruns := hbody nsName target v u hcallee hcallee' hu
        fun e after heq => hvalid (e.orLocate place) after (by rw [heq])
      generalize p.runFrom fuel target u 0 (m.activate nsName v) = r at hruns
      generalize p.runFrom fuel target u 0 (m'.activate nsName v) = r' at hruns
      cases hruns with
      | done hafter => exact .done (hmirrors.leave hafter)
      | failed e hsink hstreams => exact .failed _ hsink hstreams
      | outOfFuel => exact .outOfFuel

/-- A run does the same on machines that mirror each other. -/
theorem IsGuarded.agrees_runFrom (hp : p.IsGuarded) (haccesses : p.AccessesAbove base.length start)
    (hstart : Lexical start'.code names) (hzero : start'.pc = 0)
    (hbound : start'.machine.bindings.length = 2) (hcode : Structured True t.code.toList)
    (hreach : p.Reaches start ⟨chain, t.code.toList, pc, m⟩)
    (hreach' : p.Reaches start' ⟨chain', t.code.toList, pc, m'⟩) (hmirrors : m.Mirrors F own base m')
    (hvalid : (p.runFrom fuel name t pc m').IsValid) :
    Run.Agrees (Machine.Mirrors F own base) (p.runFrom fuel name t pc m)
      (p.runFrom fuel name t pc m') := by
  induction fuel generalizing name t pc chain chain' m m' with
  | zero => exact .outOfFuel
  | succ fuel ih =>
    cases hi : t.code[pc]? with
    | none =>
      simp only [runFrom, hi]
      exact .done hmirrors
    | some i =>
      have hlist : t.code.toList[pc]? = some i := by simpa using hi
      by_cases hcall : ∃ ns index, i = .template ns index
      · obtain ⟨ns, index, rfl⟩ := hcall
        rw [runFrom_of_template hi] at hvalid
        rw [runFrom_of_template hi, runFrom_of_template hi]
        have hcalled : Run.Agrees (Machine.Mirrors F own base) (p.called fuel (t.locate name pc) ns index m)
            (p.called fuel (t.locate name pc) ns index m') := by
          refine agrees_called hmirrors (fun e after heq => hvalid e after (by rw [heq])) ?_
          intro nsName target v u hcallee hcallee' hu
          exact ih (hp.structured target u hu) (hreach.call hlist hcallee hu)
            (hreach'.call hlist hcallee' hu) (hmirrors.activate nsName v)
        generalize hrun : p.called fuel (t.locate name pc) ns index m = r at hcalled
        generalize hrun' : p.called fuel (t.locate name pc) ns index m' = r' at hcalled hvalid
        cases hcalled with
        | done hafter =>
          exact ih hcode (hreach.next hlist (instr_of_called hrun))
            (hreach'.next hlist (instr_of_called hrun')) hafter hvalid
        | failed e hsink hstreams => exact .failed _ hsink hstreams
        | outOfFuel => exact .outOfFuel
      · have hnot : ∀ ns index, i ≠ .template ns index := fun ns index heq => hcall ⟨ns, index, heq⟩
        rw [runFrom_of_step hi hnot] at hvalid
        rw [runFrom_of_step hi hnot, runFrom_of_step hi hnot]
        have hstep := hp.agrees_step haccesses hstart hzero hbound hcode hlist hreach hreach' hmirrors
          fun reason m₁ heq => hvalid ⟨.invalidCode reason, _⟩ m₁ (by rw [heq]) reason rfl
        generalize hs : m.step p.schema p.tables i = s at hstep
        generalize hs' : m'.step p.schema p.tables i = s' at hstep hvalid
        cases hstep with
        | next hmirrors =>
          exact ih hcode (hreach.next hlist ((Env.instr_eq_done hnot).mpr hs))
            (hreach'.next hlist ((Env.instr_eq_done hnot).mpr hs')) hmirrors hvalid
        | jump k hmirrors =>
          cases htarget : jumpTarget? pc k t.code.size with
          | some target =>
            simp only [htarget] at hvalid ⊢
            have htarget' : jumpTarget? pc k t.code.toList.length = some target := by simpa using htarget
            exact ih hcode (hreach.jump hlist hs htarget') (hreach'.jump hlist hs' htarget') hmirrors hvalid
          | none =>
            simp only [htarget] at hvalid ⊢
            exact absurd rfl (hvalid _ _ rfl _)
        | fail e hsink hstreams => exact .failed _ hsink hstreams

/-- If each instruction of each template has a place, each error is reported at one. -/
theorem Executes.isSome_location {r : Run} (h : p.Executes name t pc m r)
    (hp : ∀ (name : String) (u : CompiledTemplate), p.templates[name]? = some u →
      ∀ pc < u.code.size, (u.locate name pc).isSome)
    (ht : ∀ pc < t.code.size, (t.locate name pc).isSome) {e : ExecutionError}
    (hfailed : r = .failed e after) : e.location.isSome := by
  have hplace {name : String} {t : CompiledTemplate} {pc : Nat} {i : Instr}
      (ht : ∀ pc < t.code.size, (t.locate name pc).isSome) (hi : t.code.toList[pc]? = some i) :
      (t.locate name pc).isSome := ht pc (by simpa using Env.getElem?_lt hi)
  induction h generalizing e after with
  | stop => cases hfailed
  | next _ _ _ _ ih | jump _ _ _ _ ih | call _ _ _ _ _ _ ih => exact ih ht hfailed
  | raise hi _ hu _ ih =>
    cases hfailed
    have hinner := ih (hp _ _ hu) rfl
    rwa [ExecutionError.orLocate_of_isSome hinner]
  | fail hi | astray hi | uncalled hi | missing hi =>
    cases hfailed
    exact hplace ht hi

/-- A run whose templates can be located everywhere fails with a location. -/
theorem isSome_location (hp : ∀ (name : String) (u : CompiledTemplate), p.templates[name]? = some u →
      ∀ pc < u.code.size, (u.locate name pc).isSome)
    (ht : ∀ pc < t.code.size, (t.locate name pc).isSome) {e : ExecutionError}
    (h : p.runFrom fuel name t pc m = .failed e after) : e.location.isSome :=
  (executes_of_runFrom h nofun).isSome_location hp ht rfl

end Program

namespace Machine

variable {m : Machine} {vars : Value}

/-- An activation binds the data, and the variables if it sees them otherwise than its caller. -/
theorem activate_cases (hvars : Bindings.get? Tables.varsVar m.bindings = some vars) (ns : String)
    (v : Value) :
    (vars.seenIn ns = vars ∧
      m.activate ns v = { m with bindings := (Tables.rootVar, v) :: m.bindings, dot := v }) ∨
    m.activate ns v =
      { m with bindings := (Tables.varsVar, vars.seenIn ns) :: (Tables.rootVar, v) :: m.bindings
               dot := v } := by
  have hbound : Bindings.get? Tables.varsVar ((Tables.rootVar, v) :: m.bindings) = some vars :=
    (Bindings.get?_cons_of_ne (by decide) v m.bindings).trans hvars
  unfold activate
  by_cases hns : ns.isEmpty
  · have hseen : vars.seenIn ns = vars := by
      unfold Value.seenIn
      split
      · simp only [Value.unpackMap, hns, Bool.true_or, if_true]
      · rfl
    simp only [if_pos hns]
    exact .inl ⟨hseen, rfl⟩
  · simp only [if_neg hns, bind, hbound]
    cases vars
    case map kind entries => exact .inr rfl
    all_goals exact .inl ⟨rfl, rfl⟩

/-- A call mirrors a render with the variables that it passes on. -/
theorem mirrors_activate (hvars : Bindings.get? Tables.varsVar m.bindings = some vars) (ns : String)
    (v : Value) :
    ∃ own, (m.activate ns v).Mirrors m.frame own m.bindings
      (((Machine.fresh m.sink m.streams).bind Tables.varsVar (vars.seenIn ns)).activate "" v) := by
  rcases activate_cases hvars ns v with ⟨hseen, hactivate⟩ | hactivate
  · rw [hactivate, hseen]
    exact ⟨_, _, rfl, .entry (.of_shared hvars v)⟩
  · rw [hactivate]
    exact ⟨_, _, rfl, .entry (.of_own _ v)⟩

/-- The caller finds everything as it was when a call that mirrors a render is over. -/
theorem Mirrors.leave_eq {after after' : Machine} {own : List Nat}
    (h : after.Mirrors m.frame own m.bindings after') (hframe : after'.frame = .empty) :
    m.leave after = { m with sink := after'.sink, streams := after'.streams } := by
  obtain ⟨bindings, rfl, hbindings⟩ := h
  obtain ⟨top, rfl⟩ := hbindings.exists_top
  obtain ⟨⟨stack, marks, bindings, dots, iterations⟩, dot, sink, streams⟩ := after'
  simp only [frame, Frame.empty, Frame.mk.injEq] at hframe
  obtain ⟨rfl, rfl, rfl, rfl⟩ := hframe
  simp only [Machine.leave, onto, keepBottom_append]
  rfl

end Machine

/-- A call agrees with a render with the variables that it passes on. -/
theorem Program.IsGuarded.agrees_activate {p : Program} (hp : p.IsGuarded) {m : Machine}
    {V v : Value} (hV : Bindings.get? Tables.varsVar m.bindings = some V) {nsName target : String}
    {u : CompiledTemplate} (hu : p.templates[target]? = some u) {chain : List String}
    (haccesses : p.AccessesAbove m.bindings.length ⟨chain, u.code.toList, 0, m.activate nsName v⟩)
    {fuel : Nat} (hvalid : (p.run fuel target v (V.seenIn nsName) (.fresh m.sink m.streams)).IsValid) :
    ∃ own, Run.Agrees (Machine.Mirrors m.frame own m.bindings)
      (p.runFrom fuel target u 0 (m.activate nsName v))
      (p.run fuel target v (V.seenIn nsName) (.fresh m.sink m.streams)) := by
  obtain ⟨own, hmirrors⟩ := Machine.mirrors_activate hV nsName v
  obtain ⟨names, hlexical⟩ := hp.lexical target u hu
  let start := Program.startPoint target u v (V.seenIn nsName) (.fresh m.sink m.streams)
  have hrun : p.run fuel target v (V.seenIn nsName) (.fresh m.sink m.streams) =
      p.runFrom fuel target u 0 start.machine := by
    simp only [Program.run, hu, start, Program.startPoint]
  rw [hrun] at hvalid ⊢
  have hreach : p.Reaches start ⟨[target], u.code.toList, 0, start.machine⟩ := .refl
  exact ⟨own, hp.agrees_runFrom haccesses hlexical rfl rfl (hp.structured target u hu) .refl hreach
    hmirrors hvalid⟩

namespace Compile

variable {c : Context} {tree : Tree} {tables : Tables} {schema : Schema} {registry : Registry}
  {options : CompileOptions} {set : TemplateSet} {p : Program} {name target : String}
  {t u : CompiledTemplate} {pc ns index fuel : Nat} {m m₀ : Machine} {d data vars : Value}

/-- The last entry of the table of a template is at its end. -/
theorem WrittenFrom.isSome_locate (h : WrittenFrom c tree tables u) (name : String) :
    ∀ pc < u.code.size, (u.locate name pc).isSome := by
  obtain ⟨v, φ, ⟨s, f, s', -, -, -, -, rfl⟩, -, rfl⟩ := h
  intro pc hpc
  rw [Array.size_map] at hpc
  have hlast : ((f.mark tree.root.pos).marks.find? fun m => pc ≤ m.pc).isSome := by
    rw [Array.find?_isSome]
    exact ⟨⟨f.code.size, tree.root.pos⟩, Array.mem_push_self, by simpa using Nat.le_of_lt hpc⟩
  simpa only [CompiledTemplate.locate, Option.isSome_map, Fragment.positionOf] using hlast

/-- In a compiled program every instruction can be located. -/
theorem isSome_locate_of_compile (hcompile : compile schema registry options set = .ok p) (name : String)
    (u : CompiledTemplate) (hu : p.templates[name]? = some u) :
    ∀ pc < u.code.size, (u.locate name pc).isSome := by
  obtain ⟨_, -, hwritten⟩ := exists_tree_of_compile hcompile hu
  exact hwritten.isSome_locate name

/-- A compiled program of well-formed templates is guarded. -/
theorem isGuarded_of_compile (hwf : set.wellFormed)
    (hcompile : compile schema registry options set = .ok p) : p.IsGuarded where
  lexical := isLexical_of_compile hcompile fun name tree htree =>
    Node.allBindElements_of_wellFormed _ (wellFormed_of_mem hwf (mem_toList_iff.mpr htree))
  structured name u hu := by
    obtain ⟨tree, htree, hwritten⟩ := exists_tree_of_compile hcompile hu
    exact hwritten.structured.1.mono fun _ => wellFormed_of_mem hwf (mem_toList_iff.mpr htree)

/-- A call in a compiled program names a template of its set. -/
theorem exists_callee (hcompile : compile schema registry options set = .ok p)
    (ht : p.templates[name]? = some t) (hi : t.code[pc]? = some (.template ns index))
    (hd : m.stack.head? = some d) :
    ∃ nsName target, m.callee p ns index = .ok (nsName, target, d) ∧ set.contains target := by
  obtain ⟨tree, -, hwritten⟩ := exists_tree_of_compile hcompile ht
  have hmem : .template ns index ∈ t.code.toList := List.mem_of_getElem? (by simpa using hi)
  obtain ⟨target, hname, hns⟩ := hwritten.refers _ hmem
  obtain ⟨target', -, hcontains, hname'⟩ := hwritten.structured.2 _ hmem
  obtain rfl : target = target' := Option.some.inj (hname.symm.trans hname')
  obtain ⟨stack, hstack⟩ := List.head?_eq_some_iff.mp hd
  have hcallee : m.callee p ns index =
      .ok (Namespace.relative (Namespace.of name) (Namespace.of target), target, d) := by
    simp only [Machine.callee, hns, hname, hstack]
  exact ⟨_, target, hcallee, hcontains⟩

/-- Wherever a run gets, render variables are bound. -/
theorem exists_vars (hp : p.IsLexical) (ht : p.templates[name]? = some t) {P : Point}
    (hreach : p.Reaches (Program.startPoint name t data vars m₀) P) :
    ∃ V, Bindings.get? Tables.varsVar P.machine.bindings = some V := by
  obtain ⟨names, hlexical⟩ := hp name t ht
  obtain ⟨names, above, -, hkeeps⟩ := hreach.keeps hp hlexical rfl
    (fun _ _ _ _ _ _ => trivial : p.AssignsOnly (fun _ _ => True) _)
  rw [← Option.isSome_iff_exists, Bindings.get?_isSome_iff, hkeeps.names]
  have hstart : Tables.varsVar ∈
      (Program.startPoint name t data vars m₀).machine.bindings.map Prod.fst :=
    List.mem_cons_of_mem _ (List.mem_cons_self ..)
  exact List.mem_append_right _ hstart

/-- Wherever a run of a program of a well-formed set calls a template, the call does what rendering the
template does, on its own, with the data of the call and the variables that the caller sees in the
namespace of the call: it fails with the same error at the same place, or it leaves the caller everything
as it was, apart from what has been written and taken from the streams, which is the same too. This is so
if nothing accesses, from the call on, a variable that has been bound before it, apart from reading the
data and the render variables. -/
theorem calls_are_independent (hwf : set.wellFormed)
    (hcompile : compile schema registry options set = .ok p) {entry : String} {u₀ : CompiledTemplate}
    (hu₀ : p.templates[entry]? = some u₀) (ht : p.templates[name]? = some t) {chain : List String}
    (hreach : p.Reaches (Program.startPoint entry u₀ data vars m₀)
      ⟨name :: chain, t.code.toList, pc, m⟩)
    (hi : t.code[pc]? = some (.template ns index)) (hd : m.stack.head? = some d) :
    ∃ nsName target u V, m.callee p ns index = .ok (nsName, target, d) ∧
      p.templates[target]? = some u ∧ Bindings.get? Tables.varsVar m.bindings = some V ∧
      (p.AccessesAbove m.bindings.length
          ⟨target :: name :: chain, u.code.toList, 0, m.activate nsName d⟩ →
        ∀ fuel, Run.Agrees
          (fun called rendered => called = { m with sink := rendered.sink, streams := rendered.streams })
          (p.called fuel (t.locate name pc) ns index m)
          (p.run fuel target d (V.seenIn nsName) (.fresh m.sink m.streams))) := by
  have hp := isGuarded_of_compile hwf hcompile
  obtain ⟨q, φ, -, hq, hφ⟩ := exists_compiled hwf hcompile
  obtain ⟨nsName, target, hcallee, hcontains⟩ := exists_callee hcompile ht hi hd
  obtain ⟨u, names, hu, hneutral⟩ := hq.exists_neutral hφ hcontains
  obtain ⟨V, hV⟩ := exists_vars hp.lexical hu₀ hreach
  refine ⟨nsName, target, u, V, hcallee, hu, hV, fun haccesses fuel => ?_⟩
  have hends {o : Outcome}
      (h : (p.run fuel target d (V.seenIn nsName) (.fresh m.sink m.streams)).outcome? = some o) :
      p.env.Runs u.code.toList _ o := (Program.renders_iff hu).mp ⟨fuel, h⟩
  have hvalid : (p.run fuel target d (V.seenIn nsName) (.fresh m.sink m.streams)).IsValid :=
    fun e after heq => (ordinary_iff.mp (hneutral.ordinary (hends (congrArg Run.outcome? heq)))).1
  obtain ⟨own, hagrees⟩ := hp.agrees_activate hV hu haccesses hvalid
  rw [Program.called_of_callee hcallee hu]
  generalize hcalled : p.runFrom fuel target u 0 (m.activate nsName d) = called at hagrees
  generalize p.run fuel target d (V.seenIn nsName) (.fresh m.sink m.streams) = rendered
    at hagrees hends
  cases hagrees with
  | done hafter => exact .done (hafter.leave_eq (hneutral.frame (hends rfl)))
  | failed e hsink hstreams =>
    have hplace : e.location.isSome := Program.isSome_location (isSome_locate_of_compile hcompile)
      (isSome_locate_of_compile hcompile target u hu) hcalled
    simp only [ExecutionError.orLocate_of_isSome hplace]
    exact .failed e hsink hstreams
  | outOfFuel => exact .outOfFuel

end Compile

/-! ### Samples -/

namespace Sample

/-- A machine with a value on its stack. -/
def busy : Machine := { Machine.fresh .unlimited .none with stack := [.bool true] }

/-- Render variables, some of a namespace. -/
def hopVars : Value := (Vars.ofList [("k", .str "all"), ("a|k", .str "A")]).toValue

/-- The templates of the sample access no variables but the render variables. -/
theorem accessesAbove_hop {p : Program} (hp : Compile.compile .plain .empty .standard hop = .ok p)
    (n : Nat) {start : Point} (hstart : p.InTemplate start) : p.AccessesAbove n start := by
  have hall : (Compile.compile .plain .empty .standard hop).toOption.all fun p =>
      p.templates.toList.all fun entry => entry.2.code.toList.all fun
        | .var name => name == Tables.varsVar
        | .setVar _ assign => !assign
        | _ => true := by
    decide +kernel
  rw [hp] at hall
  simp only [Except.toOption, Option.all_some, List.all_eq_true] at hall
  intro P hP
  obtain ⟨name, outer, u, -, hu, hcode⟩ := hP.inTemplate hstart
  have hmem : (name, u) ∈ p.templates.toList := Std.TreeMap.mem_toList_iff_getElem?_eq_some.mpr hu
  refine ⟨fun x hx => .inr (.inl ?_), fun x hx => ?_⟩
  · have hvar := hall _ hmem _ (hcode ▸ List.mem_of_getElem? hx)
    exact beq_iff_eq.mp hvar
  · have hset := hall _ hmem _ (hcode ▸ List.mem_of_getElem? hx)
    cases hset

end Sample

namespace Compile

/-- The first call of the sample, on a machine with a value on its stack, does what rendering the template
with the variables of its namespace does. -/
theorem calls_are_independent_sample :
    ∃ p u a ns index m d, compile .plain .empty .standard Sample.hop = .ok p ∧ Sample.hop.wellFormed ∧
      p.templates["main"]? = some u ∧ p.templates["a|x"]? = some a ∧
      p.Reaches (Program.startPoint "main" u .nil Sample.hopVars Sample.busy)
        ⟨["main"], u.code.toList, 1, m⟩ ∧
      u.code[1]? = some (.template ns index) ∧ m.stack = [d, .bool true] ∧
      p.AccessesAbove m.bindings.length ⟨["a|x", "main"], a.code.toList, 0, m.activate "a" d⟩ ∧
      ∀ fuel, Run.Agrees
        (fun called rendered => called = { m with sink := rendered.sink, streams := rendered.streams })
        (p.called fuel (u.locate "main" 1) ns index m)
        (p.run fuel "a|x" d (Sample.hopVars.seenIn "a") (.fresh .unlimited .none)) := by
  obtain ⟨p, u, a, b, hp, hu, ha, hb, hmain, hx⟩ := Sample.exists_hop
  have hwf : Sample.hop.wellFormed := by decide +kernel
  obtain ⟨ns, index, nsName, d, hi, hreach, hcallee⟩ := Sample.exists_beforeCall hmain hu
    (.refl : p.Reaches (Program.startPoint "main" u .nil Sample.hopVars Sample.busy) _)
  have hns : nsName = "a" :=
    (namespaced_of_compile hp Sample.allBindElements_hop Sample.name_ne_vars_hop).callee hu
      (List.mem_of_getElem? hi) hcallee
  subst hns
  have hcode : u.code[1]? = some (.template ns index) := by simpa using hi
  have haccesses (n : Nat) (m : Machine) :
      p.AccessesAbove n ⟨["a|x", "main"], a.code.toList, 0, m⟩ :=
    Sample.accessesAbove_hop hp n ⟨"a|x", ["main"], a, rfl, ha, rfl⟩
  obtain ⟨nsName, target, a', V, hcallee', ha', hV, hagrees⟩ :=
    calls_are_independent hwf hp hu hu hreach hcode rfl
  cases hcallee.symm.trans hcallee'
  cases ha.symm.trans ha'
  cases hV
  exact ⟨p, u, a, ns, index, _, d, hp, hwf, hu, ha, hreach, hcode, rfl, haccesses _ _,
    hagrees (haccesses _ _)⟩

end Compile
end Stencil
