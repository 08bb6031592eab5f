import Stencil.Proofs.Namespaces

/-!
# Machines that mirror each other

A template that is called works on top of the stacks and the bindings of its caller, and one that is
rendered on its own works on empty ones. As long as neither takes a value that is not its own, nor
accesses a variable of the caller apart from the render variables, each step does the same on both.
-/

namespace Stencil

namespace Bindings

variable {own : List Nat} {base top top' fresh bindings bindings' after : List (Nat × Value)}
  {name k : Nat} {v : Value}

/-- A variable is found exactly if its name is bound. -/
theorem get?_isSome_iff : (get? name bindings).isSome ↔ name ∈ bindings.map Prod.fst := by
  simp [get?]

/-- A variable that is bound has a place among the bindings. -/
theorem exists_place? (h : name ∈ bindings.map Prod.fst) :
    ∃ k, place? name bindings = some k ∧ k < bindings.length := by
  induction bindings with
  | nil => cases h
  | cons b rest ih =>
    rw [place?]
    split
    · exact ⟨_, rfl, Nat.lt_succ_self _⟩
    · next hne =>
      rw [List.map_cons, List.mem_cons] at h
      obtain ⟨k, hk, hlt⟩ := ih (h.resolve_left fun heq => hne heq.symm)
      exact ⟨k, hk, Nat.lt_succ_of_lt hlt⟩

/-- Bindings of other variables on top do not change the place of a variable. -/
theorem place?_append (h : name ∉ top.map Prod.fst) : place? name (top ++ base) = place? name base := by
  induction top with
  | nil => rfl
  | cons b rest ih =>
    rw [List.map_cons, List.mem_cons, not_or] at h
    rw [List.cons_append, place?, if_neg fun heq => h.1 heq.symm, ih h.2]

/-- A variable is looked up in the bindings on top first. -/
theorem get?_append (name : Nat) (top base : List (Nat × Value)) :
    get? name (top ++ base) = (get? name top).or (get? name base) := by
  simp only [get?, List.find?_append, Option.map_or]

/-- A variable that is not bound cannot be assigned. -/
theorem assign?_eq_none (h : name ∉ bindings.map Prod.fst) : assign? name v bindings = none := by
  induction bindings with
  | nil => rfl
  | cons b rest ih =>
    rw [List.map_cons, List.mem_cons, not_or] at h
    rw [assign?, if_neg fun heq => h.1 heq.symm, ih h.2]
    rfl

/-- A variable that is bound can be assigned. -/
theorem exists_assign? (h : name ∈ bindings.map Prod.fst) (v : Value) :
    ∃ after, assign? name v bindings = some after := by
  induction bindings with
  | nil => cases h
  | cons b rest ih =>
    rw [assign?]
    split
    · exact ⟨_, rfl⟩
    · next hne =>
      rw [List.map_cons, List.mem_cons] at h
      obtain ⟨after, hafter⟩ := ih (h.resolve_left fun heq => hne heq.symm)
      exact ⟨_, by rw [hafter, Option.map_some]⟩

/-- An assignment to a variable on top leaves the bindings below alone. -/
theorem assign?_append (h : assign? name v top = some top') (base : List (Nat × Value)) :
    assign? name v (top ++ base) = some (top' ++ base) := by
  induction top generalizing top' with
  | nil => cases h
  | cons b rest ih =>
    rw [assign?] at h
    rw [List.cons_append, assign?]
    split at h
    · next heq =>
      cases h
      rw [if_pos heq]
      rfl
    · next hne =>
      obtain ⟨rest', hrest, rfl⟩ := Option.map_eq_some_iff.mp h
      rw [if_neg hne, ih hrest]
      rfl

/-- What has been assigned is found. -/
theorem get?_assign?_self (h : assign? name v bindings = some after) : get? name after = some v := by
  induction bindings generalizing after with
  | nil => cases h
  | cons b rest ih =>
    rw [assign?] at h
    split at h
    · cases h
      exact get?_cons_self name v rest
    · next hne =>
      obtain ⟨rest', hrest, rfl⟩ := Option.map_eq_some_iff.mp h
      rw [← ih hrest]
      exact get?_cons_of_ne hne b.2 rest'

/-- Whether no binding of a variable is the innermost one and lies in the outermost `n` places. -/
def Above (n name : Nat) (bindings : List (Nat × Value)) : Prop :=
  ∀ k, place? name bindings = some k → n ≤ k

/-- A variable that is not bound above the others is not bound at all, unless it is one of them. -/
theorem Above.not_mem (h : Above base.length name (top ++ base)) (htop : name ∉ top.map Prod.fst) :
    name ∉ (top ++ base).map Prod.fst := by
  rw [List.map_append, List.mem_append]
  rintro (hmem | hmem)
  · exact htop hmem
  · obtain ⟨k, hk, hlt⟩ := exists_place? hmem
    have := h k (by rw [place?_append htop, hk])
    omega

/-- Without a binding of another variable on top a variable keeps its place. -/
theorem Above.of_cons {n : Nat} {b : Nat × Value} (h : Above n name (b :: bindings)) (hne : b.1 ≠ name) :
    Above n name bindings := fun k hk => h k (by rw [place?, if_neg hne, hk])

/-- What a call binds at its start, on top of the bindings of its caller, and what a render of its own
binds, which are the data and the render variables. -/
structure Entry (own : List Nat) (base top fresh : List (Nat × Value)) : Prop where
  names : top.map Prod.fst = own
  reserved : ∀ name ∈ own, name = Tables.rootVar ∨ name = Tables.varsVar
  names_fresh : fresh.map Prod.fst = [Tables.rootVar, Tables.varsVar]
  root : get? Tables.rootVar top = get? Tables.rootVar fresh
  vars : get? Tables.varsVar (top ++ base) = get? Tables.varsVar fresh

namespace Entry

/-- A render of its own binds the data and the render variables. -/
theorem mem_fresh_iff (h : Entry own base top fresh) :
    name ∈ fresh.map Prod.fst ↔ name = Tables.rootVar ∨ name = Tables.varsVar := by
  rw [h.names_fresh]
  simp

/-- A call binds its data. -/
theorem root_mem (h : Entry own base top fresh) : Tables.rootVar ∈ own := by
  rw [← h.names, ← get?_isSome_iff, h.root, get?_isSome_iff, h.mem_fresh_iff]
  exact .inl rfl

/-- Behind the start of a call a variable of its own has the value that it has in a render. -/
theorem get? (h : Entry own base top fresh)
    (hname : name = Tables.rootVar ∨ name = Tables.varsVar ∨ Above base.length name (top ++ base)) :
    Bindings.get? name (top ++ base) = Bindings.get? name fresh := by
  by_cases hroot : name = Tables.rootVar
  · subst hroot
    have hsome : (Bindings.get? Tables.rootVar top).isSome :=
      get?_isSome_iff.mpr (h.names ▸ h.root_mem)
    rw [get?_append, Option.or_of_isSome hsome, h.root]
  · by_cases hvars : name = Tables.varsVar
    · rw [hvars]
      exact h.vars
    · have habove := (hname.resolve_left hroot).resolve_left hvars
      have htop : name ∉ top.map Prod.fst := fun hmem =>
        (h.reserved name (h.names ▸ hmem)).elim hroot hvars
      have hfresh : name ∉ fresh.map Prod.fst := fun hmem => (h.mem_fresh_iff.mp hmem).elim hroot hvars
      rw [← get?_isSome_iff, Option.not_isSome_iff_eq_none] at hfresh
      have hnone := habove.not_mem htop
      rw [← get?_isSome_iff, Option.not_isSome_iff_eq_none] at hnone
      rw [hnone, hfresh]

/-- A variable that is assigned is one that both have bound at their start, or it is bound nowhere. -/
theorem assign? (h : Entry own base top fresh) (hname : Above base.length name (top ++ base)) (v : Value) :
    (Bindings.assign? name v (top ++ base) = none ∧ Bindings.assign? name v fresh = none) ∨
      ∃ top' fresh', Bindings.assign? name v (top ++ base) = some (top' ++ base) ∧
        Bindings.assign? name v fresh = some fresh' ∧ Entry own base top' fresh' := by
  by_cases hmem : name ∈ own
  · obtain ⟨top', htop⟩ := exists_assign? (h.names ▸ hmem) v
    obtain ⟨fresh', hfresh⟩ := exists_assign? (h.mem_fresh_iff.mpr (h.reserved name hmem)) v
    have hwhole := assign?_append htop base
    refine .inr ⟨top', fresh', hwhole, hfresh, ?_⟩
    have hsame {x : Nat} {before before' after after' : List (Nat × Value)}
        (hbefore : Bindings.get? x before = Bindings.get? x before')
        (hassign : Bindings.assign? name v before = some after)
        (hassign' : Bindings.assign? name v before' = some after') :
        Bindings.get? x after = Bindings.get? x after' := by
      by_cases hx : name = x
      · subst hx
        rw [get?_assign?_self hassign, get?_assign?_self hassign']
      · rw [get?_assign? hx hassign, get?_assign? hx hassign', hbefore]
    exact
      { names := (Machine.map_fst_assign? htop).trans h.names
        reserved := h.reserved
        names_fresh := (Machine.map_fst_assign? hfresh).trans h.names_fresh
        root := hsame h.root htop hfresh
        vars := hsame h.vars hwhole hfresh }
  · have hnone := hname.not_mem (h.names ▸ hmem)
    refine .inl ⟨assign?_eq_none hnone, assign?_eq_none fun hfresh => ?_⟩
    rcases h.mem_fresh_iff.mp hfresh with rfl | rfl
    · exact hmem h.root_mem
    · rw [← get?_isSome_iff, h.vars, get?_isSome_iff] at hnone
      exact hnone hfresh

/-- A call that sees the variables as its caller does binds only its data. -/
theorem of_shared {vars : Value} (hvars : Bindings.get? Tables.varsVar base = some vars) (v : Value) :
    Entry [Tables.rootVar] base [(Tables.rootVar, v)]
      [(Tables.rootVar, v), (Tables.varsVar, vars)] where
  names := rfl
  reserved := by simp
  names_fresh := rfl
  root := rfl
  vars := (get?_cons_of_ne (by decide) v base).trans hvars

/-- A call that sees other variables than its caller binds them. -/
theorem of_own (vars v : Value) :
    Entry [Tables.varsVar, Tables.rootVar] base [(Tables.varsVar, vars), (Tables.rootVar, v)]
      [(Tables.rootVar, v), (Tables.varsVar, vars)] where
  names := rfl
  reserved := by simp [or_comm]
  names_fresh := rfl
  root := rfl
  vars := rfl

end Entry

/-- Whether bindings are those of a call on top of the ones of its caller, and others are those of a
render of its own. -/
inductive Mirrors (own : List Nat) (base : List (Nat × Value)) :
    List (Nat × Value) → List (Nat × Value) → Prop where
  | entry {top fresh : List (Nat × Value)} : Entry own base top fresh →
      Mirrors own base (top ++ base) fresh
  | bind {bindings bindings' : List (Nat × Value)} (b : Nat × Value) :
      Mirrors own base bindings bindings' → Mirrors own base (b :: bindings) (b :: bindings')

namespace Mirrors

/-- Bindings that mirror each other give a variable of their own the same value. -/
theorem get? (h : Mirrors own base bindings bindings')
    (hname : name = Tables.rootVar ∨ name = Tables.varsVar ∨ Above base.length name bindings) :
    Bindings.get? name bindings = Bindings.get? name bindings' := by
  induction h with
  | entry hentry => exact hentry.get? hname
  | bind b _ ih =>
    by_cases hne : b.1 = name
    · rw [← hne]
      exact (get?_cons_self b.1 b.2 _).trans (get?_cons_self b.1 b.2 _).symm
    · rw [get?_cons_of_ne hne b.2, get?_cons_of_ne hne b.2]
      exact ih (hname.imp_right (Or.imp_right fun habove => habove.of_cons hne))

/-- Bindings that mirror each other do so after an assignment to a variable of their own. -/
theorem assign? (h : Mirrors own base bindings bindings') (hname : Above base.length name bindings)
    (v : Value) :
    (Bindings.assign? name v bindings = none ∧ Bindings.assign? name v bindings' = none) ∨
      ∃ after after', Bindings.assign? name v bindings = some after ∧
        Bindings.assign? name v bindings' = some after' ∧ Mirrors own base after after' := by
  induction h with
  | entry hentry =>
    rcases hentry.assign? hname v with hnone | ⟨top', fresh', htop, hfresh, hentry'⟩
    · exact .inl hnone
    · exact .inr ⟨_, fresh', htop, hfresh, .entry hentry'⟩
  | @bind bindings bindings' b hrest ih =>
    rw [Bindings.assign?, Bindings.assign?]
    by_cases hne : b.1 = name
    · rw [if_pos hne, if_pos hne]
      exact .inr ⟨_, _, rfl, rfl, .bind _ hrest⟩
    · rw [if_neg hne, if_neg hne]
      rcases ih (hname.of_cons hne) with ⟨hnone, hnone'⟩ | ⟨after, after', hafter, hafter', hmirrors⟩
      · rw [hnone, hnone']
        exact .inl ⟨rfl, rfl⟩
      · rw [hafter, hafter']
        exact .inr ⟨_, _, rfl, rfl, .bind b hmirrors⟩

/-- What a call has bound itself is on top of the bindings of its caller. -/
theorem length_eq (h : Mirrors own base bindings bindings') :
    bindings.length + 2 = bindings'.length + (own.length + base.length) ∧ 2 ≤ bindings'.length := by
  induction h with
  | entry hentry =>
    have hown := congrArg List.length hentry.names
    have hfresh := congrArg List.length hentry.names_fresh
    simp only [List.length_map, List.length_append, List.length_cons, List.length_nil] at hown hfresh ⊢
    omega
  | bind b _ ih =>
    simp only [List.length_cons]
    omega

/-- Bindings that mirror each other do so without some of those on top. -/
theorem drop (h : Mirrors own base bindings bindings') {n : Nat} (hn : n + 2 ≤ bindings'.length) :
    Mirrors own base (bindings.drop n) (bindings'.drop n) := by
  induction h generalizing n with
  | entry hentry =>
    have hfresh := congrArg List.length hentry.names_fresh
    rw [List.length_map, List.length_cons, List.length_cons, List.length_nil] at hfresh
    obtain rfl : n = 0 := by omega
    exact .entry hentry
  | bind b hrest ih =>
    cases n with
    | zero => exact .bind b hrest
    | succ n =>
      rw [List.length_cons] at hn
      exact ih (by omega)

/-- Giving up what has been bound since then keeps what was mirrored then. -/
theorem keepBottom {before before' : List (Nat × Value)} (h : Mirrors own base before before')
    (hafter : Mirrors own base bindings bindings') :
    Mirrors own base (keepBottom before.length bindings) (Stencil.keepBottom before'.length bindings') := by
  have hlength := h.length_eq
  have hlength' := hafter.length_eq
  unfold Stencil.keepBottom
  have hsame : bindings.length - before.length = bindings'.length - before'.length := by omega
  rw [hsame]
  exact hafter.drop (by omega)

/-- The bindings of the caller stay as they are. -/
theorem exists_top (h : Mirrors own base bindings bindings') : ∃ top, bindings = top ++ base := by
  induction h with
  | entry => exact ⟨_, rfl⟩
  | bind b _ ih =>
    obtain ⟨top, rfl⟩ := ih
    exact ⟨b :: top, rfl⟩

end Mirrors
end Bindings

/-! ### Machines -/

/-- Whether a step does not fail because its code is malformed. -/
def Step.IsValid (s : Step) : Prop := ∀ reason m, s ≠ .fail (.invalidCode reason) m

namespace Machine

/-- The machine on top of the stacks of another one, with other bindings. -/
def onto (m : Machine) (F : Frame) (bindings : List (Nat × Value)) : Machine :=
  { m with
    stack := m.stack ++ F.stack
    marks := m.marks.map (· + F.stack.length) ++ F.marks
    dots := m.dots ++ F.dots
    iterations := m.iterations ++ F.iterations
    bindings := bindings }

section

variable {schema : Schema} {t : Tables} {i : Instr} {m : Machine} {F : Frame}
  {bindings : List (Nat × Value)}

/-- On the stacks and bindings of a caller the values of a machine are on top. -/
theorem overlays_onto (F : Frame) (bindings : List (Nat × Value)) :
    Overlays (·.onto F bindings) F.stack := fun _ _ => rfl

/-- A machine writes the same on the stacks and bindings of a caller. -/
theorem writesThrough_onto (F : Frame) (bindings : List (Nat × Value)) :
    WritesThrough (·.onto F bindings) := fun _ _ => ⟨rfl, rfl⟩

/-- The bottom of a stack is on top of the other stack. -/
theorem keepBottom_onto (depth : Nat) :
    Stencil.keepBottom (depth + F.stack.length) (m.onto F bindings).stack =
      Stencil.keepBottom depth m.stack ++ F.stack := by
  have hstack : (m.onto F bindings).stack = m.stack ++ F.stack := rfl
  have hdrop : m.stack.length + F.stack.length - (depth + F.stack.length) = m.stack.length - depth := by
    omega
  rw [hstack, Stencil.keepBottom, List.length_append, hdrop,
    List.drop_append_of_le_length (Nat.sub_le _ _), Stencil.keepBottom]

/-- Malformed code is not valid. -/
theorem not_isValid_invalid (m : Machine) (reason : String) : ¬(m.invalid reason).IsValid :=
  fun h => h reason m rfl

/-- The own values are on top. -/
theorem exists_stack_onto (F : Frame) (bindings : List (Nat × Value)) (hstack : m.stack ≠ []) :
    ∃ v stack, m.stack = v :: stack ∧ (m.onto F bindings).stack = v :: (stack ++ F.stack) := by
  obtain ⟨v, stack, hstack⟩ := List.exists_cons_of_ne_nil hstack
  exact ⟨v, stack, hstack, by simp [onto, hstack]⟩

/-- An instruction that does not access variables does the same on top of other stacks, if it finds the
values that it takes. -/
theorem step_onto (hvar : ∀ name, i ≠ .var name) (hset : ∀ name assign, i ≠ .setVar name assign)
    (hunset : ∀ name, i ≠ .unsetVar name) (hjmpf : ∀ k, i = .jmpf k → m.stack ≠ [])
    (hjmpt : ∀ k, i ≠ .jmpt k) (hvalid : (m.step schema t i).IsValid) :
    (m.onto F bindings).step schema t i = (m.step schema t i).map (·.onto F bindings) := by
  have hcomputes (hi : i.computes) :
      (m.onto F bindings).step schema t i = (m.step schema t i).map (·.onto F bindings) := by
    refine ((overlays_onto F bindings).step hi).resolve_right ?_
    rintro ⟨-, -, reason, m', hinvalid⟩
    exact hvalid reason m' hinvalid
  cases i with
  | var name => exact absurd rfl (hvar name)
  | setVar name assign => exact absurd rfl (hset name assign)
  | unsetVar name => exact absurd rfl (hunset name)
  | jmpt k => exact absurd rfl (hjmpt k)
  | template ns index => exact absurd hvalid (not_isValid_invalid m _)
  | nop | jmp _ | dot => rfl
  | mark =>
    simp only [step, onto, Step.map, List.length_append, List.map_cons, List.cons_append]
  | jmpf k =>
    obtain ⟨v, stack, hstack, hstack'⟩ := m.exists_stack_onto F bindings (hjmpf k rfl)
    simp only [step, hstack, hstack', List.head?_cons]
    split <;> rfl
  | string | val | func | field => exact hcomputes rfl
  | wb index =>
    simp only [step]
    cases t.chunks[index]? with
    | none => rfl
    | some bytes => exact (writesThrough_onto F bindings).write bytes
  | print =>
    obtain ⟨v, stack, hstack, hstack'⟩ := m.exists_stack_onto F bindings
      fun hnil => not_isValid_invalid m _ (by simpa only [step, hnil] using hvalid)
    simp only [step, hstack, hstack']
    exact (writesThrough_onto F bindings).print v
  | pushDot =>
    obtain ⟨v, stack, hstack, hstack'⟩ := m.exists_stack_onto F bindings
      fun hnil => not_isValid_invalid m _ (by simpa only [step, hnil] using hvalid)
    simp only [step, hstack, hstack']
    rfl
  | iter =>
    obtain ⟨v, stack, hstack, hstack'⟩ := m.exists_stack_onto F bindings
      fun hnil => not_isValid_invalid m _ (by simpa only [step, hnil] using hvalid)
    simp only [step, hstack, hstack']
    cases Iteration.start v <;> rfl
  | popDot =>
    cases hdots : m.dots with
    | nil => exact (not_isValid_invalid m _ (by simpa only [step, hdots] using hvalid)).elim
    | cons v dots =>
      have hdots' : (m.onto F bindings).dots = v :: (dots ++ F.dots) := by simp [onto, hdots]
      simp only [step, hdots, hdots']
      rfl
  | next k =>
    cases hiterations : m.iterations with
    | nil => exact (not_isValid_invalid m _ (by simpa only [step, hiterations] using hvalid)).elim
    | cons it rest =>
      have hiterations' : (m.onto F bindings).iterations = it :: (rest ++ F.iterations) := by
        simp [onto, hiterations]
      have hstreams : (m.onto F bindings).streams = m.streams := rfl
      simp only [step, hiterations, hiterations', hstreams]
      cases it.next? m.streams <;> rfl
  | pop n =>
    cases n with
    | zero =>
      cases hmarks : m.marks with
      | nil => exact (not_isValid_invalid m _ (by simpa only [step, hmarks] using hvalid)).elim
      | cons depth marks =>
        have hmarks' : (m.onto F bindings).marks =
            (depth + F.stack.length) :: (marks.map (· + F.stack.length) ++ F.marks) := by
          simp [onto, hmarks]
        simp only [step, hmarks, hmarks', keepBottom_onto]
        rfl
    | succ n =>
      by_cases hn : n + 1 ≤ m.stack.length
      · have hn' : n + 1 ≤ (m.onto F bindings).stack.length := by
          simp only [onto, List.length_append]
          omega
        simp only [step, if_pos hn, if_pos hn', Step.map]
        simp only [onto, List.drop_append_of_le_length hn]
      · exact (not_isValid_invalid m _ (by simpa only [step, if_neg hn] using hvalid)).elim

end

/-- Whether a machine is that of a call, on top of the stacks and the bindings of its caller, and another
one that of a render of its own. -/
def Mirrors (F : Frame) (own : List Nat) (base : List (Nat × Value)) (m m' : Machine) : Prop :=
  ∃ bindings, m = m'.onto F bindings ∧ Bindings.Mirrors own base bindings m'.bindings

end Machine

namespace Step

/-- Whether steps go the same way, to machines in a relation or to an error after the same output. -/
inductive Agrees (R : Machine → Machine → Prop) : Step → Step → Prop where
  | next {m m' : Machine} : R m m' → Agrees R (.next m) (.next m')
  | jump {m m' : Machine} (k : Int) : R m m' → Agrees R (.jump k m) (.jump k m')
  | fail {m m' : Machine} (e : RuntimeError) : m.sink = m'.sink → m.streams = m'.streams →
      Agrees R (.fail e m) (.fail e m')

end Step

namespace Machine.Mirrors

variable {schema : Schema} {t : Tables} {i : Instr} {F : Frame} {own : List Nat}
  {base : List (Nat × Value)} {m m' : Machine}

/-- Machines that mirror each other look up a variable of their own alike. -/
theorem step_var {name : Nat} (h : m.Mirrors F own base m')
    (hname : name = Tables.rootVar ∨ name = Tables.varsVar ∨
      Bindings.Above base.length name m.bindings) :
    Step.Agrees (Mirrors F own base) (m.step schema t (.var name)) (m'.step schema t (.var name)) := by
  obtain ⟨bindings, rfl, hbindings⟩ := h
  have hget : Bindings.get? name (m'.onto F bindings).bindings = Bindings.get? name m'.bindings :=
    hbindings.get? hname
  simp only [step, hget]
  cases Bindings.get? name m'.bindings with
  | none => exact .fail _ rfl rfl
  | some v => exact .next ⟨bindings, rfl, hbindings⟩

/-- Machines that mirror each other set a variable of their own alike. -/
theorem step_setVar {name : Nat} {assign : Bool} (h : m.Mirrors F own base m')
    (hname : assign → Bindings.Above base.length name m.bindings)
    (hvalid : (m'.step schema t (.setVar name assign)).IsValid) :
    Step.Agrees (Mirrors F own base) (m.step schema t (.setVar name assign))
      (m'.step schema t (.setVar name assign)) := by
  obtain ⟨bindings, rfl, hbindings⟩ := h
  obtain ⟨v, stack, hstack, hstack'⟩ := m'.exists_stack_onto F bindings
    fun hnil => not_isValid_invalid m' _ (by simpa only [step, hnil] using hvalid)
  simp only [step, hstack, hstack']
  cases assign with
  | false => exact .next ⟨_, rfl, .bind (name, v) hbindings⟩
  | true =>
    have hsame : (m'.onto F bindings).bindings = bindings := rfl
    simp only [if_true, hsame]
    rcases hbindings.assign? (hname rfl) v with ⟨hnone, hnone'⟩ | ⟨after, after', hafter, hafter', hafters⟩
    · rw [hnone, hnone']
      exact .fail _ rfl rfl
    · rw [hafter, hafter']
      exact .next ⟨after, rfl, hafters⟩

/-- A variable that has been bound since the start is removed from both. -/
theorem step_unsetVar {name : Nat} {v : Value} {rest : List (Nat × Value)} (h : m.Mirrors F own base m')
    (hinnermost : m'.bindings = (name, v) :: rest) (hrest : 2 ≤ rest.length) :
    Step.Agrees (Mirrors F own base) (m.step schema t (.unsetVar name))
      (m'.step schema t (.unsetVar name)) := by
  obtain ⟨bindings, rfl, hbindings⟩ := h
  rw [hinnermost] at hbindings
  cases hbindings with
  | entry hentry =>
    have hfresh := congrArg List.length hentry.names_fresh
    simp only [List.length_map, List.length_cons, List.length_nil] at hfresh
    omega
  | @bind bindings _ _ hbindings =>
    have hsame : (m'.onto F ((name, v) :: bindings)).bindings = (name, v) :: bindings := rfl
    simp only [step, hsame, hinnermost, Bindings.remove?_cons_self]
    exact .next ⟨bindings, rfl, hbindings⟩

/-- A step does the same on machines that mirror each other, if it takes no value of the caller and
accesses none of its variables but the render variables. -/
theorem step (h : m.Mirrors F own base m') (hvalid : (m'.step schema t i).IsValid)
    (hread : ∀ name, i = .var name → name = Tables.rootVar ∨ name = Tables.varsVar ∨
      Bindings.Above base.length name m.bindings)
    (hassign : ∀ name, i = .setVar name true → Bindings.Above base.length name m.bindings)
    (hunset : ∀ name, i = .unsetVar name →
      ∃ v rest, m'.bindings = (name, v) :: rest ∧ 2 ≤ rest.length)
    (hjmpf : ∀ k, i = .jmpf k → m'.stack ≠ []) (hjmpt : ∀ k, i ≠ .jmpt k) :
    Step.Agrees (Mirrors F own base) (m.step schema t i) (m'.step schema t i) := by
  by_cases hvar : ∃ name, i = .var name
  · obtain ⟨name, rfl⟩ := hvar
    exact h.step_var (hread name rfl)
  · by_cases hset : ∃ name assign, i = .setVar name assign
    · obtain ⟨name, assign, rfl⟩ := hset
      exact h.step_setVar (fun hassigns => hassign name (hassigns ▸ rfl)) hvalid
    · by_cases hremove : ∃ name, i = .unsetVar name
      · obtain ⟨name, rfl⟩ := hremove
        obtain ⟨v, rest, hinnermost, hrest⟩ := hunset name rfl
        exact h.step_unsetVar hinnermost hrest
      · rw [not_exists] at hvar hremove
        have hset' (name : Nat) (assign : Bool) : i ≠ .setVar name assign := fun heq =>
          hset ⟨name, assign, heq⟩
        obtain ⟨bindings, rfl, hbindings⟩ := h
        rw [step_onto hvar hset' hremove hjmpf hjmpt hvalid]
        cases hstep : m'.step schema t i with
        | next m₁ =>
          exact .next ⟨bindings, rfl, bindings_of_step_next hset' hremove hstep ▸ hbindings⟩
        | jump k m₁ => exact .jump k ⟨bindings, rfl, bindings_of_step_jump hstep ▸ hbindings⟩
        | fail e m₁ => exact .fail e rfl rfl

/-- An activation of the same template keeps machines mirroring each other. -/
theorem activate (h : m.Mirrors F own base m') (ns : String) (v : Value) :
    (m.activate ns v).Mirrors F own base (m'.activate ns v) := by
  obtain ⟨bindings, rfl, hbindings⟩ := h
  have hroot := hbindings.bind (Tables.rootVar, v)
  have hvars : Bindings.get? Tables.varsVar ((Tables.rootVar, v) :: bindings) =
      Bindings.get? Tables.varsVar ((Tables.rootVar, v) :: m'.bindings) := hroot.get? (.inr (.inl rfl))
  unfold Machine.activate
  by_cases hns : ns.isEmpty
  · simp only [if_pos hns]
    exact ⟨_, rfl, hroot⟩
  · simp only [if_neg hns, Machine.bind, onto, hvars]
    split
    · exact ⟨_, rfl, hroot.bind _⟩
    · exact ⟨_, rfl, hroot⟩

/-- Returning from calls that mirror each other gives up the same variables. -/
theorem leave {after after' : Machine} (h : m.Mirrors F own base m')
    (hafter : after.Mirrors F own base after') :
    (m.leave after).Mirrors F own base (m'.leave after') := by
  obtain ⟨bindings, rfl, hbindings⟩ := h
  obtain ⟨bindings', rfl, hbindings'⟩ := hafter
  exact ⟨_, rfl, hbindings.keepBottom hbindings'⟩

end Machine.Mirrors
end Stencil
