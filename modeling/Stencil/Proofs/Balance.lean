import Stencil.Compile.Branch
import Stencil.Fragment.Balance
import Stencil.Proofs.Layout
import Stencil.Proofs.Straight

/-!
# Balanced code

The code of a pipeline leaves values that nothing will use, and a `POP` behind it removes them. The
count of the `POP` is the number of values left, which is known unless there is a field access;
then the depth of the stack is marked in front of the code and the `POP` goes back to the mark.
-/

namespace Stencil

namespace Instr

/-- Whether it is known of an instruction how many values it pushes and pops, as it is of all instructions
of pipelines but `FIELD`, and of those around them that keep dots, end variables and pop values. -/
def isCounted : Instr → Bool
  | val _ | string _ | dot | var _ | func .. | setVar .. | print | wb _ => true
  | pushDot | popDot | unsetVar _ => true
  | pop n => n != 0
  | _ => false

/-- An instruction of straight-line code is counted unless it is a field access. -/
theorem isCounted_of_isStraight {i : Instr} (hi : i.isStraight) (hfield : i.isField = false) :
    i.isCounted := by
  cases i <;> simp_all [isStraight, isField, isCounted]

/-- An instruction that is counted does not jump. -/
theorem distance?_of_isCounted {i : Instr} (hi : i.isCounted) : i.distance? = none := by
  cases i <;> first | rfl | cases hi

end Instr

namespace Fragment

/-- What the instructions of code add up to. -/
def total (g : Instr → Nat) (code : List Instr) : Nat := code.foldr (fun i n => g i + n) 0

/-- The number of values that code pushes. -/
def pushed (code : List Instr) : Nat := total Instr.pushes code

/-- The number of values that code pops. -/
def popped (code : List Instr) : Nat := total Instr.pops code

/-- Whether a `POP` removes all values that code leaves. -/
def Balances (pop : Option Nat) (code : List Instr) : Prop :=
  match pop with
  | some 0 => code.any Instr.isField = true
  | _ => code.any Instr.isField = false ∧ pushed code = popped code + pop.getD 0

/-- The code in front of balanced code. -/
def holdCode : Option Nat → List Instr
  | some 0 => [.mark]
  | _ => []

/-- Code with one more instruction in front adds up to one more summand. -/
theorem total_cons (g : Instr → Nat) (i : Instr) (code : List Instr) :
    total g (i :: code) = g i + total g code := rfl

/-- What code adds up to is added up part by part. -/
theorem total_append (g : Instr → Nat) (code rest : List Instr) :
    total g (code ++ rest) = total g code + total g rest := by
  induction code with
  | nil => exact (Nat.zero_add _).symm
  | cons i code ih => rw [List.cons_append, total_cons, total_cons, ih, Nat.add_assoc]

/-- Counting from the front comes to the same as counting from the back. -/
theorem foldl_add_eq_total (g : Instr → Nat) (code : List Instr) (n : Nat) :
    code.foldl (fun n i => n + g i) n = n + total g code := by
  induction code generalizing n with
  | nil => rfl
  | cons i code ih => rw [List.foldl_cons, ih, total_cons, Nat.add_assoc]

/-- The last instruction of a fragment is the last one of its instructions. -/
theorem last?_eq (f : Fragment) : f.last? = f.instrs.getLast? := by
  simp [last?, instrs]

/-- Straight-line code has no `MARK` at its end. -/
theorem endsAtMark_of_straight {f : Fragment} (hstraight : Straight f.instrs) :
    f.endsAtMark = false := by
  rw [endsAtMark, last?_eq, beq_eq_false_iff_ne]
  intro hlast
  have := hstraight _ (List.mem_of_getLast? hlast)
  cases this

/-- The pushes of code without a `MARK` at its end are their sum, unless there is a field access. -/
theorem pushes_of_endsAtMark {f : Fragment} (hend : f.endsAtMark = false) :
    f.pushes = if f.instrs.any Instr.isField then none else some (pushed f.instrs) := by
  rw [pushes, hend]
  simp [instrs, pushed, ← Array.foldl_toList, foldl_add_eq_total]

/-- The pops of code without a `MARK` at its end are their sum. -/
theorem pops_of_endsAtMark {f : Fragment} (hend : f.endsAtMark = false) :
    f.pops = popped f.instrs := by
  rw [pops, hend]
  simp [instrs, popped, ← Array.foldl_toList, foldl_add_eq_total]

/-- The pushes of straight-line code are their sum, unless there is a field access. -/
theorem pushes_of_straight {f : Fragment} (hstraight : Straight f.instrs) :
    f.pushes = if f.instrs.any Instr.isField then none else some (pushed f.instrs) :=
  pushes_of_endsAtMark (endsAtMark_of_straight hstraight)

/-- The pops of straight-line code are their sum. -/
theorem pops_of_straight {f : Fragment} (hstraight : Straight f.instrs) :
    f.pops = popped f.instrs :=
  pops_of_endsAtMark (endsAtMark_of_straight hstraight)

/-- Straight-line code has no `POP` that could be taken back. -/
theorem takePop_of_straight {f : Fragment} (hstraight : Straight f.instrs) :
    f.takePop = (f, none) := by
  unfold takePop
  split
  · next n hlast =>
    have hmem := hstraight _ (List.mem_of_getLast? ((last?_eq f).symm.trans hlast))
    cases hmem
  · rfl

/-- Balanced code is the code with a `POP` that removes what it leaves. -/
theorem balance_eq_ok {f balanced : Fragment} (hstraight : Straight f.instrs)
    (h : f.balance = .ok balanced) :
    ∃ g pop, balanced.takePop = (g, pop) ∧ g.instrs = holdCode pop ++ f.instrs ∧
      balanced.instrs = g.instrs ++ Compile.popCode pop ∧ Balances pop f.instrs := by
  rw [balance, pushes_of_straight hstraight, pops_of_straight hstraight] at h
  cases hfield : f.instrs.any Instr.isField with
  | true =>
    rw [hfield] at h
    cases h
    exact ⟨_, _, takePop_push_pop _ 0, by simp [holdCode], by simp [Compile.popCode], hfield⟩
  | false =>
    rw [hfield] at h
    simp only [Bool.false_eq_true, if_false] at h
    split at h
    · cases h
    · split at h
      · next hequal =>
        cases h
        exact ⟨_, _, takePop_of_straight hstraight, by simp [holdCode], by simp [Compile.popCode],
          hfield, by simpa using hequal⟩
      · split at h
        · cases h
          obtain ⟨n, hn⟩ : ∃ n, pushed f.instrs - popped f.instrs = n + 1 :=
            Nat.exists_eq_add_one.mpr (by omega)
          rw [hn]
          exact ⟨_, _, takePop_push_pop _ _, by simp [holdCode], by simp [Compile.popCode], hfield,
            by simp only [Option.getD_some]; omega⟩
        · cases h

/-- Code that finds the values it may take pops no more than it pushes. -/
theorem popped_le_pushed {code : List Instr} {before after : Nat} (hstraight : Straight code)
    (hfield : code.any Instr.isField = false) (hleaves : Leaves code before after) :
    after + popped code ≤ before + pushed code := by
  induction code generalizing before with
  | nil => exact hleaves
  | cons i code ih =>
    obtain ⟨htakes, hleaves⟩ := hleaves
    simp only [List.any_cons, Bool.or_eq_false_iff] at hfield
    have hrest := ih hstraight.tail hfield.2 hleaves
    have hi : before - i.takes + i.gives + i.pops = before + i.pushes := by
      have hstraight := hstraight.head
      cases i <;> simp only [Instr.isStraight, Bool.false_eq_true] at hstraight <;>
        simp only [Instr.takes] at htakes <;>
        simp only [Instr.takes, Instr.gives, Instr.pops, Instr.pushes]
      case field => cases hfield.1
      all_goals omega
    simp only [popped, pushed, total_cons] at hrest ⊢
    omega

/-- Code that finds the values it may take can be balanced, unless it leaves too many. -/
theorem balance_ne_unbalanced {f : Fragment} {after : Nat} {e : CompileErrorKind}
    (hstraight : Straight f.instrs) (hleaves : Leaves f.instrs 0 after) (h : f.balance = .error e)
    (effect : Int) : e ≠ .unbalanced effect := by
  rw [balance, pushes_of_straight hstraight, pops_of_straight hstraight] at h
  cases hfield : f.instrs.any Instr.isField with
  | true =>
    rw [hfield] at h
    cases h
  | false =>
    have hcount := popped_le_pushed hstraight hfield hleaves
    rw [hfield] at h
    simp only [Bool.false_eq_true, if_false] at h
    split at h
    · omega
    · split at h
      · cases h
      · split at h <;> cases h
        simp

section

variable {code code' : List Instr} {pop pop' : Option Nat}

/-- Code is balanced by the `POP` of code that leaves as many values. -/
theorem Balances.of_count (h : Balances pop code)
    (hfields : code.any Instr.isField = code'.any Instr.isField)
    (hcount : pushed code + popped code' = pushed code' + popped code) : Balances pop code' := by
  unfold Balances at h ⊢
  split
  · rw [← hfields]
    exact h
  · next hnonzero =>
    split at h
    · exact absurd rfl hnonzero
    · exact ⟨hfields ▸ h.1, by omega⟩

/-- Code is balanced by one `POP` only. -/
theorem Balances.unique (hpop : Balances pop code) (hpop' : Balances pop' code) : pop = pop' := by
  unfold Balances at hpop hpop'
  split at hpop <;> split at hpop'
  · rfl
  · rw [hpop'.1] at hpop
    cases hpop
  · rw [hpop.1] at hpop'
    cases hpop'
  · next hnonzero _ hnonzero' =>
    have hgetD : pop.getD 0 = pop'.getD 0 := by omega
    cases pop with
    | none =>
      cases pop' with
      | none => rfl
      | some n => exact absurd (congrArg some hgetD.symm) hnonzero'
    | some n =>
      cases pop' with
      | none => exact absurd (congrArg some hgetD) hnonzero
      | some n' => exact congrArg some hgetD

/-- Code that a `POP` balances is only refused if the count of the `POP` is too large. -/
theorem Balances.balance_eq_error {f : Fragment} {e : CompileErrorKind} (hstraight : Straight f.instrs)
    (hpop : Balances pop f.instrs) (h : f.balance = .error e) : e = .tableOverflow "pop" := by
  rw [balance, pushes_of_straight hstraight, pops_of_straight hstraight] at h
  cases hfield : f.instrs.any Instr.isField with
  | true =>
    rw [hfield] at h
    cases h
  | false =>
    rw [hfield] at h
    simp only [Bool.false_eq_true, if_false] at h
    have hcount : popped f.instrs ≤ pushed f.instrs := by
      unfold Balances at hpop
      split at hpop
      · rw [hfield] at hpop
        cases hpop
      · omega
    split at h
    · omega
    · split at h
      · cases h
      · split at h <;> cases h
        rfl

end

end Fragment

/-- The stacks below the values of code whose values a `POP` will remove. -/
def Frame.held (pop : Option Nat) (F : Frame) : Frame :=
  match pop with
  | some 0 => { F with marks := F.stack.length :: F.marks }
  | _ => F

/-- Whether a `POP` removes exactly `n` values, where the depth below them may be marked. -/
def Fits (pop : Option Nat) (n : Nat) : Prop :=
  match pop with
  | some 0 => True
  | _ => n = pop.getD 0

namespace Machine

variable {schema : Schema} {t : Tables} {i : Instr} {code : List Instr} {l l' : Machine}

/-- Whether a machine differs from an earlier one in its values as if so many had been taken from the stack
and then others been pushed, with the same depths marked. -/
structure Exchanges (taken given : Nat) (l l' : Machine) : Prop where
  le : taken ≤ l.stack.length
  stack : ∃ top, top.length = given ∧ l'.stack = top ++ l.stack.drop taken
  marks : l'.marks = l.marks

/-- An exchange of values changes the depth of the stack by the difference. -/
theorem Exchanges.length {taken given : Nat} (h : Exchanges taken given l l') :
    l'.stack.length + taken = l.stack.length + given := by
  obtain ⟨top, htop, hstack⟩ := h.stack
  have hle := h.le
  rw [hstack, List.length_append, List.length_drop, htop]
  omega

/-- Without a field access it is known exactly which values an instruction takes and how many it pushes. -/
theorem exchanges_step (hi : i.isCounted) (h : l.step schema t i = .next l') :
    Exchanges i.pops i.pushes l l' := by
  have hadvances := step_eq_next.mp h
  cases hadvances with
  | dot | string | val | var => exact ⟨Nat.zero_le _, ⟨[_], rfl, rfl⟩, rfl⟩
  | wb | print | pushDot | popDot | unsetVar => exact ⟨Nat.zero_le _, ⟨[], rfl, rfl⟩, rfl⟩
  | pop hle => exact ⟨hle, ⟨[], rfl, rfl⟩, rfl⟩
  | func _ hle => exact ⟨hle, ⟨[_], rfl, rfl⟩, rfl⟩
  | declare hstack | assign hstack =>
    have hle : 1 ≤ l.stack.length := by simp [hstack]
    exact ⟨hle, ⟨[], rfl, by simp [hstack, Instr.pops]⟩, rfl⟩
  | _ => cases hi

/-- A field access takes the value and, if it calls a method, the arguments, and pushes one value. -/
theorem exchanges_field {argc name : Nat} (h : l.step schema t (.field argc name) = .next l') :
    ∃ taken, Exchanges taken 1 l l' := by
  have hadvances := step_eq_next.mp h
  cases hadvances with
  | @field _ _ taken _ _ result _ _ hstack hfinds =>
    have hle : taken + 1 ≤ l.stack.length := by simpa [hstack] using hfinds.taken_le.2
    exact ⟨taken + 1, hle, ⟨[result], rfl, by simp [hstack]⟩, rfl⟩

/-- Without a field access it is known exactly how many values code pushes and pops. -/
theorem length_steps_of_isCounted (hcode : ∀ i ∈ code, i.isCounted)
    (h : l.steps schema t code = .done l') :
    l'.stack.length + Fragment.popped code = l.stack.length + Fragment.pushed code := by
  induction code generalizing l with
  | nil =>
    cases h
    rfl
  | cons i code ih =>
    obtain ⟨hi, hcode⟩ := List.forall_mem_cons.mp hcode
    obtain ⟨l₁, hstep, hrest⟩ :=
      (steps_cons_eq_done_of_distance? (Instr.distance?_of_isCounted hi)).mp h
    have hfirst := (exchanges_step hi hstep).length
    have hsecond := ih hcode hrest
    simp only [Fragment.popped, Fragment.pushed, Fragment.total_cons] at hsecond ⊢
    omega

/-- Straight-line code without field accesses changes the depth of the stack as counted. -/
theorem length_stack_steps (hcode : Straight code) (hfield : code.any Instr.isField = false)
    (h : l.steps schema t code = .done l') :
    l'.stack.length + Fragment.popped code = l.stack.length + Fragment.pushed code :=
  length_steps_of_isCounted
    (fun i hi => Instr.isCounted_of_isStraight (hcode i hi)
      (Bool.eq_false_iff.mpr (List.any_eq_false.mp hfield i hi))) h

/-- The `POP` of balanced code removes the values that the code leaves. -/
theorem fits_steps {pop : Option Nat} (hcode : Straight code) (hbalances : Fragment.Balances pop code)
    (hstack : l.stack = []) (h : l.steps schema t code = .done l') : Fits pop l'.stack.length := by
  unfold Fragment.Balances at hbalances
  unfold Fits
  split
  · trivial
  · split at hbalances
    · next hnot => exact absurd rfl hnot
    · obtain ⟨hfield, hcount⟩ := hbalances
      have := length_stack_steps hcode hfield h
      simp only [hstack, List.length_nil] at this
      omega

end Machine

namespace Env

variable {env : Env} {code : List Instr} {pop : Option Nat} {m l : Machine} {o : Outcome}

/-- What holds back a `POP` is closed. -/
theorem closed_holdCode (pop : Option Nat) : Closed (Fragment.holdCode pop) := by
  unfold Fragment.holdCode
  split
  · exact closed_cons rfl closed_nil
  · exact closed_nil

/-- Marking the depth of the stack is part of what is below the values that follow. -/
theorem runs_holdCode (r : Outcome) :
    env.Runs (Fragment.holdCode pop) m r ↔ r = .done (m.within (m.frame.held pop)) := by
  unfold Fragment.holdCode Frame.held
  split
  · exact runs_singleton_of_step env rfl (by simp) rfl r
  · rw [runs_nil]
    exact Iff.rfl

/-- Code in front of a `POP` works on its own values, whatever lies below them. -/
theorem runs_held {after : Nat} (hcode : Straight code) (hleaves : Leaves code 0 after) :
    env.Runs (Fragment.holdCode pop ++ code) m o ↔
      o = (m.bare.steps env.schema env.tables code).map (·.above (m.frame.held pop)) := by
  have hstop : (m.within (m.frame.held pop)) = m.bare.above (m.frame.held pop) := rfl
  rw [runs_append (closed_holdCode pop) hcode.closed, Effect.andThen_of_eq runs_holdCode,
    Effect.proceed, runs_straight env hcode, hstop,
    Machine.steps_above hcode hleaves (Nat.zero_le _)]

/-- A `POP` that fits removes the values and uncovers what was below them. -/
theorem runs_popCode (F : Frame) (hfits : Fits pop l.stack.length) (r : Outcome) :
    env.Runs (Compile.popCode pop) (l.above (F.held pop)) r ↔ r = .done (l.within F) := by
  match pop with
  | none =>
    have hstack : l.stack = [] := List.eq_nil_of_length_eq_zero hfits
    have hstop : l.above F = l.within F := by
      simp only [Machine.above, Machine.within, hstack, List.nil_append]
    simp only [Compile.popCode, Option.map_none, Option.toList_none, runs_nil, Effect.skip, Frame.held,
      hstop]
  | some 0 =>
    have hdo : (l.above (F.held (some 0))).step env.schema env.tables (.pop 0) =
        .next (l.within F) := by
      simp only [Machine.step, Machine.above, Machine.within, Frame.held, keepBottom_append]
    exact runs_singleton_of_step env rfl (by simp) (by rw [hdo]; rfl) r
  | some (n + 1) =>
    have hlength : l.stack.length = n + 1 := hfits
    have hdo : (l.above (F.held (some (n + 1)))).step env.schema env.tables (.pop (n + 1)) =
        .next (l.within F) := by
      have hle : n + 1 ≤ (l.above (F.held (some (n + 1)))).stack.length := by
        simp only [Machine.stack_above, List.length_append]
        omega
      have hdrop : (l.above (F.held (some (n + 1)))).stack.drop (n + 1) = F.stack :=
        List.drop_left' hlength
      simp only [Machine.step, if_pos hle, hdrop]
      rfl
    exact runs_singleton_of_step env rfl (by simp) (by rw [hdo]; rfl) r

/-- Balanced code leaves the stacks as they were. -/
theorem runs_balanced {after : Nat} (hcode : Straight code) (hleaves : Leaves code 0 after)
    (hbalances : Fragment.Balances pop code) :
    env.Runs (Fragment.holdCode pop ++ code ++ Compile.popCode pop) m o ↔
      o = (m.bare.steps env.schema env.tables code).map (·.within m.frame) := by
  have hfront : Closed (Fragment.holdCode pop ++ code) := (closed_holdCode pop).append hcode.closed
  rw [runs_append hfront (Compile.closed_popCode pop),
    Effect.andThen_of_eq fun _ => runs_held hcode hleaves]
  cases hsteps : m.bare.steps env.schema env.tables code with
  | done l => exact runs_popCode m.frame (Machine.fits_steps hcode hbalances rfl hsteps) o
  | failed e sink streams => rfl

end Env
end Stencil
