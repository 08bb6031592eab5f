import Stencil.Proofs.Effect
import Stencil.Proofs.Transitions

/-!
# Executing code

Running a list of instructions from an offset on, with the number of instructions that takes. Code
whose jumps stay inside can stand anywhere in other code and is then run as a whole: it is entered
at its first instruction and left right behind its last one. So the effect of such code is a
property of the code alone.
-/

namespace Stencil

/-- What instructions refer to. -/
structure Env where
  schema : Schema
  tables : Tables
  /-- The effect of a template call with the given operands. -/
  call : (ns name : Nat) → Effect

/-- Whether all jumps lead to an offset in the code or right behind it. -/
def Closed (code : List Instr) : Prop :=
  ∀ (pc : Nat) (i : Instr) (k : Int), code[pc]? = some i → i.distance? = some k →
    0 ≤ (pc : Int) + k + 1 ∧ (pc : Int) + k + 1 ≤ code.length

/-- A jump has a target exactly if it leads into the code or to its end. -/
theorem jumpTarget?_eq_some_iff {pc size target : Nat} {k : Int} :
    jumpTarget? pc k size = some target ↔ (pc : Int) + k + 1 = target ∧ target ≤ size := by
  simp only [jumpTarget?]
  split
  · simp only [Option.some.injEq]
    omega
  · simp only [reduceCtorEq, false_iff]
    omega

/-- A jump in closed code has a target. -/
theorem Closed.jumpTarget {code : List Instr} (hcode : Closed code) {pc : Nat} {i : Instr} {k : Int}
    (hi : code[pc]? = some i) (hk : i.distance? = some k) :
    ∃ target, jumpTarget? pc k code.length = some target := by
  obtain ⟨hlo, hhi⟩ := hcode pc i k hi hk
  exact ⟨((pc : Int) + k + 1).toNat, jumpTarget?_eq_some_iff.mpr (by omega)⟩

/-- A step jumps only over the distance its instruction names. -/
theorem Machine.distance?_of_step_jump {schema : Schema} {t : Tables} {m m' : Machine} {i : Instr}
    {k : Int} (h : m.step schema t i = .jump k m') : i.distance? = some k :=
  (step_eq_jump.mp h).distance?_eq

namespace Env

/-- The effect of an instruction that does not jump. -/
def instr (env : Env) : Instr → Effect
  | .template ns name => env.call ns name
  | i => fun m o => (m.step env.schema env.tables i).outcome? = some o

/-- An instruction that calls no template does what it does in one step. -/
theorem instr_of_not_template {env : Env} {i : Instr} (hnot : ∀ ns index, i ≠ .template ns index)
    (m : Machine) (o : Outcome) :
    env.instr i m o ↔ (m.step env.schema env.tables i).outcome? = some o := by
  cases i <;> first | exact Iff.rfl | exact absurd rfl (hnot _ _)

/-- An instruction does what its step does. -/
theorem instr_of_step (env : Env) {i : Instr} {m : Machine} {r : Outcome}
    (hnot : ∀ ns index, i ≠ .template ns index)
    (hstep : (m.step env.schema env.tables i).outcome? = some r) (o : Outcome) :
    env.instr i m o ↔ o = r := by
  rw [instr_of_not_template hnot, hstep, Option.some.injEq]
  exact eq_comm

/-- Running `code` from the given offset on a machine ends after `n` further instructions. -/
inductive Ends (env : Env) (code : List Instr) : (n pc : Nat) → Machine → Outcome → Prop where
  | stop {pc : Nat} {m : Machine} : code.length ≤ pc → Ends env code 0 pc m (.done m)
  | next {n pc : Nat} {m m' : Machine} {i : Instr} {o : Outcome} : code[pc]? = some i →
      env.instr i m (.done m') → Ends env code n (pc + 1) m' o → Ends env code (n + 1) pc m o
  | fail {pc : Nat} {m : Machine} {i : Instr} {o : Outcome} : code[pc]? = some i →
      env.instr i m o → o.Fails → Ends env code 0 pc m o
  | jump {n pc target : Nat} {m m' : Machine} {i : Instr} {k : Int} {o : Outcome} :
      code[pc]? = some i → m.step env.schema env.tables i = .jump k m' →
      jumpTarget? pc k code.length = some target → Ends env code n target m' o →
      Ends env code (n + 1) pc m o
  | astray {pc : Nat} {m m' : Machine} {i : Instr} {k : Int} : code[pc]? = some i →
      m.step env.schema env.tables i = .jump k m' → jumpTarget? pc k code.length = none →
      Ends env code 0 pc m (.failed Machine.jumpOutOfRange m'.sink m'.streams)

/-- What running `code` from an offset on does. -/
def RunsFrom (env : Env) (code : List Instr) (pc : Nat) : Effect :=
  fun m o => ∃ n, env.Ends code n pc m o

/-- What running `code` from its start does. -/
def Runs (env : Env) (code : List Instr) : Effect := env.RunsFrom code 0

variable {env : Env} {front code rest : List Instr} {pc : Nat}

/-- There is only an instruction at an offset inside the code. -/
theorem getElem?_lt {pc : Nat} {i : Instr} (h : code[pc]? = some i) : pc < code.length :=
  (List.getElem?_eq_some_iff.mp h).1

/-- An instruction of a piece of code inside other code. -/
theorem getElem?_inside {pc : Nat} (h : pc < code.length) :
    (front ++ code ++ rest)[front.length + pc]? = code[pc]? := by
  rw [List.append_assoc, List.getElem?_append_right (by omega), Nat.add_sub_cancel_left,
    List.getElem?_append_left h]

/-- A jump inside a piece of code leads to the same place in the code around it. -/
theorem jumpTarget?_inside {pc target : Nat} {k : Int}
    (h : jumpTarget? pc k code.length = some target) :
    jumpTarget? (front.length + pc) k (front ++ code ++ rest).length =
      some (front.length + target) := by
  rw [jumpTarget?_eq_some_iff] at h ⊢
  simp only [List.length_append]
  omega

/-- A run that gets through a piece of code goes on behind it. -/
theorem Ends.append {n k pc : Nat} {m m' : Machine} {o : Outcome} (h : env.Ends code n pc m (.done m'))
    (hpc : pc ≤ code.length)
    (hrest : env.Ends (front ++ code ++ rest) k (front.length + code.length) m' o) :
    env.Ends (front ++ code ++ rest) (n + k) (front.length + pc) m o := by
  generalize ho : Outcome.done m' = o' at h
  induction h with
  | stop hstop =>
    cases ho
    obtain rfl := Nat.le_antisymm hpc hstop
    simpa using hrest
  | next hi hdo _ ih =>
    have hlt := getElem?_lt hi
    rw [Nat.add_right_comm]
    exact .next ((getElem?_inside hlt).trans hi) hdo (ih (by omega) ho)
  | fail hi hdo hfail =>
    subst ho
    exact hfail.elim
  | jump hi hstep htarget _ ih =>
    have hlt := getElem?_lt hi
    rw [Nat.add_right_comm]
    exact .jump ((getElem?_inside hlt).trans hi) hstep (jumpTarget?_inside htarget)
      (ih (jumpTarget?_eq_some_iff.mp htarget).2 ho)
  | astray => cases ho

/-- A run that fails in a piece of code fails in the code around it. -/
theorem Ends.inside (hcode : Closed code) {n pc : Nat} {m : Machine} {o : Outcome}
    (h : env.Ends code n pc m o) (ho : o.Fails) :
    env.Ends (front ++ code ++ rest) n (front.length + pc) m o := by
  induction h with
  | stop => exact ho.elim
  | next hi hdo _ ih => exact .next ((getElem?_inside (getElem?_lt hi)).trans hi) hdo (ih ho)
  | fail hi hdo => exact .fail ((getElem?_inside (getElem?_lt hi)).trans hi) hdo ho
  | jump hi hstep htarget _ ih =>
    exact .jump ((getElem?_inside (getElem?_lt hi)).trans hi) hstep (jumpTarget?_inside htarget) (ih ho)
  | astray hi hstep htarget =>
    obtain ⟨target, h⟩ := hcode.jumpTarget hi (Machine.distance?_of_step_jump hstep)
    rw [h] at htarget
    cases htarget

/-- A run that enters a piece of code gets through it or fails in it. -/
theorem Ends.split (hcode : Closed code) {n : Nat} (pc : Nat) {m : Machine} {o : Outcome}
    (h : env.Ends (front ++ code ++ rest) n (front.length + pc) m o) (hpc : pc ≤ code.length) :
    (∃ m' a b, a + b = n ∧ env.Ends code a pc m (.done m') ∧
      env.Ends (front ++ code ++ rest) b (front.length + code.length) m' o) ∨
    (o.Fails ∧ env.Ends code n pc m o) := by
  generalize hat : front.length + pc = at' at h
  induction h generalizing pc with
  | @stop _ m hstop =>
    simp only [List.length_append] at hstop
    obtain rfl : pc = code.length := by omega
    exact Or.inl ⟨m, 0, 0, rfl, .stop (Nat.le_refl _), .stop (by simp only [List.length_append]; omega)⟩
  | @next n _ m m' i o hi hdo hrest ih =>
    subst hat
    rcases Nat.lt_or_eq_of_le hpc with hlt | rfl
    · rw [getElem?_inside hlt] at hi
      rcases ih _ hlt rfl with ⟨m'', a, b, hab, hin, hout⟩ | ⟨ho, hin⟩
      · exact Or.inl ⟨m'', a + 1, b, by omega, .next hi hdo hin, hout⟩
      · exact Or.inr ⟨ho, .next hi hdo hin⟩
    · exact Or.inl ⟨m, 0, n + 1, by omega, .stop (Nat.le_refl _), .next hi hdo hrest⟩
  | @fail _ m i o hi hdo ho =>
    subst hat
    rcases Nat.lt_or_eq_of_le hpc with hlt | rfl
    · exact Or.inr ⟨ho, .fail ((getElem?_inside hlt).symm.trans hi) hdo ho⟩
    · exact Or.inl ⟨m, 0, 0, rfl, .stop (Nat.le_refl _), .fail hi hdo ho⟩
  | @jump n _ target m m' i k o hi hstep htarget hrest ih =>
    subst hat
    rcases Nat.lt_or_eq_of_le hpc with hlt | rfl
    · rw [getElem?_inside hlt] at hi
      obtain ⟨target', hinner⟩ := hcode.jumpTarget hi (Machine.distance?_of_step_jump hstep)
      have hsame : front.length + target' = target := by
        rw [jumpTarget?_inside hinner] at htarget
        exact Option.some.inj htarget
      rcases ih _ (jumpTarget?_eq_some_iff.mp hinner).2 hsame with ⟨m'', a, b, hab, hin, hout⟩ | ⟨ho, hin⟩
      · exact Or.inl ⟨m'', a + 1, b, by omega, .jump hi hstep hinner hin, hout⟩
      · exact Or.inr ⟨ho, .jump hi hstep hinner hin⟩
    · exact Or.inl ⟨m, 0, n + 1, by omega, .stop (Nat.le_refl _), .jump hi hstep htarget hrest⟩
  | @astray _ m m' i k hi hstep htarget =>
    subst hat
    rcases Nat.lt_or_eq_of_le hpc with hlt | rfl
    · rw [getElem?_inside hlt] at hi
      obtain ⟨target', hinner⟩ := hcode.jumpTarget hi (Machine.distance?_of_step_jump hstep)
      rw [jumpTarget?_inside hinner] at htarget
      cases htarget
    · exact Or.inl ⟨m, 0, 0, rfl, .stop (Nat.le_refl _), .astray hi hstep htarget⟩

/-- Entering a piece of code has its effect and goes on behind it. -/
theorem runsFrom_inside (env : Env) (front rest : List Instr) (pc out : Nat) {whole : List Instr}
    (hcode : Closed code) (hwhole : whole = front ++ code ++ rest) (hpc : pc = front.length)
    (hout : out = pc + code.length) :
    env.RunsFrom whole pc = (env.Runs code).andThen (env.RunsFrom whole out) := by
  subst hwhole hout hpc
  funext m o
  simp only [Runs, RunsFrom, Effect.andThen, eq_iff_iff]
  constructor
  · rintro ⟨n, h⟩
    rcases Ends.split hcode 0 h (Nat.zero_le _) with ⟨m', a, b, -, hin, hout⟩ | ⟨ho, hin⟩
    · exact Or.inl ⟨m', ⟨a, hin⟩, ⟨b, hout⟩⟩
    · exact Or.inr ⟨ho, ⟨n, hin⟩⟩
  · intro h
    rcases h with ⟨m', ⟨a, hin⟩, ⟨b, hout⟩⟩ | ⟨ho, ⟨n, hin⟩⟩
    · exact ⟨a + b, hin.append (Nat.zero_le _) hout⟩
    · exact ⟨n, hin.inside hcode ho⟩

/-- At the end of the code nothing is left to do. -/
theorem runsFrom_length (env : Env) {code : List Instr} {pc : Nat} (hpc : pc = code.length) :
    env.RunsFrom code pc = Effect.skip := by
  subst hpc
  funext m o
  simp only [RunsFrom, Effect.skip, eq_iff_iff]
  constructor
  · rintro ⟨n, h⟩
    cases h with
    | stop => rfl
    | next hi | fail hi | jump hi | astray hi => exact absurd (getElem?_lt hi) (Nat.lt_irrefl _)
  · intro ho
    subst ho
    exact ⟨0, .stop (Nat.le_refl _)⟩

/-- No code does nothing. -/
@[simp]
theorem runs_nil : env.Runs [] = Effect.skip := runsFrom_length env rfl

/-- An instruction that does not jump has its effect and goes on with the next one. -/
theorem runsFrom_instr {pc : Nat} {i : Instr} (hi : code[pc]? = some i) (hjump : i.distance? = none) :
    env.RunsFrom code pc = (env.instr i).andThen (env.RunsFrom code (pc + 1)) := by
  funext m o
  simp only [RunsFrom, Effect.andThen, eq_iff_iff]
  constructor
  · rintro ⟨n, h⟩
    cases h with
    | stop hstop => exact absurd (getElem?_lt hi) (by omega)
    | next hi' hdo hrest =>
      cases hi.symm.trans hi'
      exact Or.inl ⟨_, hdo, _, hrest⟩
    | fail hi' hdo ho =>
      cases hi.symm.trans hi'
      exact Or.inr ⟨ho, hdo⟩
    | jump hi' hstep | astray hi' hstep =>
      cases hi.symm.trans hi'
      rw [Machine.distance?_of_step_jump hstep] at hjump
      cases hjump
  · intro h
    rcases h with ⟨m', hdo, ⟨n, hrest⟩⟩ | ⟨ho, hdo⟩
    · exact ⟨n + 1, .next hi hdo hrest⟩
    · exact ⟨0, .fail hi hdo ho⟩

/-- The effect of an instruction that can jump is that of its step, unless it jumps. -/
theorem instr_of_distance? {i : Instr} {k : Int} (hk : i.distance? = some k) (m : Machine)
    (o : Outcome) : env.instr i m o ↔ (m.step env.schema env.tables i).outcome? = some o := by
  cases i <;> first | exact Iff.rfl | cases hk

/-- A run that is at an instruction that can jump goes on as its step says. -/
theorem Ends.of_step {n target : Nat} {i : Instr} {k : Int} {m : Machine} {o : Outcome}
    (h : env.Ends code n pc m o) (hi : code[pc]? = some i) (hk : i.distance? = some k)
    (htarget : jumpTarget? pc k code.length = some target) :
    match m.step env.schema env.tables i with
    | .next m' => ∃ n', n = n' + 1 ∧ env.Ends code n' (pc + 1) m' o
    | .jump _ m' => ∃ n', n = n' + 1 ∧ env.Ends code n' target m' o
    | .fail e m' => o = .failed e m'.sink m'.streams := by
  cases h with
  | stop hstop => exact absurd (getElem?_lt hi) (by omega)
  | next hi' hdo hrest =>
    cases hi.symm.trans hi'
    rw [instr_of_distance? hk] at hdo
    cases hstep : m.step env.schema env.tables i <;>
      simp only [hstep, Step.outcome?, reduceCtorEq, Option.some.injEq, Outcome.done.injEq] at hdo
    exact ⟨_, rfl, hdo ▸ hrest⟩
  | fail hi' hdo ho =>
    cases hi.symm.trans hi'
    rw [instr_of_distance? hk] at hdo
    cases hstep : m.step env.schema env.tables i <;>
      simp only [hstep, Step.outcome?, reduceCtorEq, Option.some.injEq] at hdo
    · exact (hdo ▸ ho).elim
    · exact hdo.symm
  | jump hi' hstep htarget' hrest =>
    cases hi.symm.trans hi'
    cases (Machine.distance?_of_step_jump hstep).symm.trans hk
    cases htarget.symm.trans htarget'
    rw [hstep]
    exact ⟨_, rfl, hrest⟩
  | astray hi' hstep htarget' =>
    cases hi.symm.trans hi'
    cases (Machine.distance?_of_step_jump hstep).symm.trans hk
    cases htarget.symm.trans htarget'

/-- What code does from an instruction on that can jump to `target`. -/
theorem runsFrom_of_step {target : Nat} {i : Instr} {k : Int} (hi : code[pc]? = some i)
    (hk : i.distance? = some k) (htarget : jumpTarget? pc k code.length = some target) {m : Machine}
    {o : Outcome} :
    env.RunsFrom code pc m o ↔
      match m.step env.schema env.tables i with
      | .next m' => env.RunsFrom code (pc + 1) m' o
      | .jump _ m' => env.RunsFrom code target m' o
      | .fail e m' => o = .failed e m'.sink m'.streams := by
  constructor
  · rintro ⟨n, h⟩
    have hrest := h.of_step hi hk htarget
    cases hstep : m.step env.schema env.tables i <;> rw [hstep] at hrest
    · obtain ⟨n', -, hrest⟩ := hrest
      exact ⟨n', hrest⟩
    · obtain ⟨n', -, hrest⟩ := hrest
      exact ⟨n', hrest⟩
    · exact hrest
  · intro h
    cases hstep : m.step env.schema env.tables i with
    | next m' =>
      rw [hstep] at h
      obtain ⟨n, hrest⟩ := h
      exact ⟨n + 1, .next hi ((instr_of_distance? hk _ _).mpr (by rw [hstep]; rfl)) hrest⟩
    | jump k' m' =>
      rw [hstep] at h
      obtain ⟨n, hrest⟩ := h
      cases (Machine.distance?_of_step_jump hstep).symm.trans hk
      exact ⟨n + 1, .jump hi hstep htarget hrest⟩
    | fail e m' =>
      rw [hstep] at h
      cases h
      exact ⟨0, .fail hi ((instr_of_distance? hk _ _).mpr (by rw [hstep]; rfl)) trivial⟩

/-- A jump goes on at its target. -/
theorem runsFrom_jmp {target : Nat} {k : Int} (hi : code[pc]? = some (.jmp k))
    (htarget : jumpTarget? pc k code.length = some target) :
    env.RunsFrom code pc = env.RunsFrom code target := by
  funext m o
  exact propext (runsFrom_of_step hi rfl htarget)

/-- A conditional jump goes on behind it or at its target, as the value on the stack chooses. -/
theorem runsFrom_jmpf {target : Nat} {k : Int} (hi : code[pc]? = some (.jmpf k))
    (htarget : jumpTarget? pc k code.length = some target) :
    env.RunsFrom code pc = (env.RunsFrom code (pc + 1)).choose (env.RunsFrom code target) := by
  funext m o
  refine propext ((runsFrom_of_step hi rfl htarget).trans ?_)
  simp only [Machine.step, Effect.choose]
  cases m.stack.head?.any Value.isTrue <;> exact Iff.rfl

/-- The end of a loop goes on behind it with the next item, or at its target if there is none. -/
theorem runsFrom_next {target : Nat} {k : Int} (hi : code[pc]? = some (.next k))
    (htarget : jumpTarget? pc k code.length = some target) :
    env.RunsFrom code pc = (env.RunsFrom code (pc + 1)).forNext (env.RunsFrom code target) := by
  funext m o
  refine propext ((runsFrom_of_step hi rfl htarget).trans ?_)
  cases hits : m.iterations with
  | nil => simp only [Machine.step, Effect.forNext, hits]; exact Iff.rfl
  | cons it others =>
    cases hnext : it.next? m.streams <;> simp only [Machine.step, Effect.forNext, hits, hnext]

/-- A `NEXT` in front of a body that is followed by a jump back to it. -/
structure LoopAt (code body front rest : List Instr) (pc out : Nat) : Prop where
  closed : Closed body
  split : code = front ++ body ++ rest
  length_front : front.length = pc + 1
  next : ∃ k, code[pc]? = some (.next k) ∧ jumpTarget? pc k code.length = some out
  back : ∃ k, code[front.length + body.length]? = some (.jmp k) ∧
    jumpTarget? (front.length + body.length) k code.length = some pc

/-- A run that is in a loop makes finitely many turns. -/
theorem Ends.loop {body : List Instr} {n out : Nat} (hloop : LoopAt code body front rest pc out)
    {m : Machine} {o : Outcome} (h : env.Ends code n pc m o) :
    (env.Runs body).loop (env.RunsFrom code out) m o := by
  obtain ⟨k, hnext, hout⟩ := hloop.next
  obtain ⟨back, hback, hto⟩ := hloop.back
  induction n using Nat.strongRecOn generalizing m with
  | ind n ih =>
    have hstep := h.of_step hnext rfl hout
    cases hits : m.iterations with
    | nil =>
      refine ⟨1, ?_⟩
      simp only [Machine.step, hits] at hstep
      simp only [Effect.turns, Effect.forNext, hits]
      exact hstep
    | cons it others =>
      cases hmore : it.next? m.streams with
      | none =>
        simp only [Machine.step, hits, hmore] at hstep
        obtain ⟨n', -, hrest⟩ := hstep
        refine ⟨1, ?_⟩
        simp only [Effect.turns, Effect.forNext, hits, hmore]
        exact ⟨n', hrest⟩
      | some e =>
        simp only [Machine.step, hits, hmore] at hstep
        obtain ⟨n', rfl, hturn⟩ := hstep
        rw [← hloop.length_front, hloop.split] at hturn
        rcases Ends.split hloop.closed 0 hturn (Nat.zero_le _) with
          ⟨m', a, b, hab, hin, hend⟩ | ⟨ho, hin⟩
        · rw [← hloop.split] at hend
          obtain ⟨b', rfl, hagain⟩ := hend.of_step hback rfl hto
          obtain ⟨turns, hturns⟩ := ih b' (by omega) hagain
          refine ⟨turns + 1, ?_⟩
          simp only [Effect.turns, Effect.forNext, hits, hmore]
          exact Or.inl ⟨m', ⟨a, hin⟩, hturns⟩
        · refine ⟨1, ?_⟩
          simp only [Effect.turns, Effect.forNext, hits, hmore]
          exact Or.inr ⟨ho, n', hin⟩

/-- A `NEXT` in front of a body with a jump back behind it is a loop over the body. -/
theorem runsFrom_loop {body : List Instr} {out : Nat} (hloop : LoopAt code body front rest pc out) :
    env.RunsFrom code pc = (env.Runs body).loop (env.RunsFrom code out) := by
  obtain ⟨k, hnext, hout⟩ := hloop.next
  obtain ⟨back, hback, hto⟩ := hloop.back
  have hturn : env.RunsFrom code (pc + 1) = (env.Runs body).andThen (env.RunsFrom code pc) := by
    rw [runsFrom_inside env front rest _ _ hloop.closed hloop.split hloop.length_front.symm rfl,
      ← hloop.length_front, runsFrom_jmp hback hto]
  funext m o
  apply propext
  constructor
  · rintro ⟨n, h⟩
    exact h.loop hloop
  · rintro ⟨n, h⟩
    -- By induction on the number of turns: the code is entered anew after each of them.
    induction n generalizing m o with
    | zero => exact h.elim
    | succ n ih =>
      rw [runsFrom_next hnext hout, hturn]
      refine Effect.forNext_mono (fun m o hbody => ?_) (fun _ _ hout => hout) h
      exact Effect.andThen_mono (fun _ _ hin => hin) ih hbody

end Env

/-! ### Closed code -/

/-- No code is closed. -/
theorem closed_nil : Closed [] := by
  intro pc i k hi
  cases hi

/-- Code without jumps is closed. -/
theorem closed_of_distance? {code : List Instr} (h : ∀ i ∈ code, i.distance? = none) :
    Closed code := by
  intro pc i k hi hk
  rw [h i (List.mem_of_getElem? hi)] at hk
  cases hk

/-- Closed code behind closed code is closed. -/
theorem Closed.append {code rest : List Instr} (hcode : Closed code) (hrest : Closed rest) :
    Closed (code ++ rest) := by
  intro pc i k hi hk
  rw [List.length_append]
  rcases Nat.lt_or_ge pc code.length with hlt | hge
  · rw [List.getElem?_append_left hlt] at hi
    have := hcode pc i k hi hk
    omega
  · rw [List.getElem?_append_right hge] at hi
    have := hrest _ i k hi hk
    omega

/-- Whether all jumps lead to an offset in the code, at most `before` instructions in front of it or
at most `behind` instructions behind its end. -/
def JumpsWithin (before behind : Nat) (code : List Instr) : Prop :=
  ∀ (pc : Nat) (i : Instr) (k : Int), code[pc]? = some i → i.distance? = some k →
    -(before : Int) ≤ (pc : Int) + k + 1 ∧ (pc : Int) + k + 1 ≤ code.length + behind

/-- Code is closed exactly if its jumps need no room around it. -/
theorem closed_iff_jumpsWithin {code : List Instr} : Closed code ↔ JumpsWithin 0 0 code := by
  simp [Closed, JumpsWithin]

/-- Closed code does not jump into the code around it. -/
theorem Closed.jumpsWithin {code : List Instr} (hcode : Closed code)
    (before behind : Nat) : JumpsWithin before behind code := by
  intro pc i k hi hk
  have := hcode pc i k hi hk
  omega

/-- Codes whose jumps stay within what is around them do so together. -/
theorem JumpsWithin.append {before behind : Nat} {code rest : List Instr}
    (hcode : JumpsWithin before (behind + rest.length) code)
    (hrest : JumpsWithin (before + code.length) behind rest) :
    JumpsWithin before behind (code ++ rest) := by
  intro pc i k hi hk
  rw [List.length_append]
  rcases Nat.lt_or_ge pc code.length with hlt | hge
  · rw [List.getElem?_append_left hlt] at hi
    have := hcode pc i k hi hk
    omega
  · rw [List.getElem?_append_right hge] at hi
    have := hrest _ i k hi hk
    omega

/-- A jump in front may lead into the code behind it. -/
theorem JumpsWithin.cons {before behind : Nat} {i : Instr} {code : List Instr}
    (hi : ∀ k, i.distance? = some k → -(before : Int) ≤ k + 1 ∧ k ≤ code.length + behind)
    (hcode : JumpsWithin (before + 1) behind code) : JumpsWithin before behind (i :: code) := by
  intro pc j k hj hk
  rw [List.length_cons]
  cases pc with
  | zero =>
    cases hj
    have := hi k hk
    omega
  | succ pc =>
    have := hcode pc j k hj hk
    omega

/-- Instructions that do not jump can be put in front of code. -/
theorem closed_cons {i : Instr} {code : List Instr} (hi : i.distance? = none) (hcode : Closed code) :
    Closed (i :: code) := by
  have hone : Closed [i] := closed_of_distance? (by simp [hi])
  exact hone.append hcode

namespace Env

variable {env : Env} {code rest : List Instr}

/-- Closed pieces of code run one after the other. -/
theorem runs_append (hcode : Closed code) (hrest : Closed rest) :
    env.Runs (code ++ rest) = (env.Runs code).andThen (env.Runs rest) := by
  have hend : env.RunsFrom (code ++ rest) (code.length + rest.length) = Effect.skip :=
    runsFrom_length env List.length_append.symm
  have hsecond : env.RunsFrom (code ++ rest) code.length = env.Runs rest := by
    rw [runsFrom_inside env code [] _ _ hrest (List.append_nil _).symm rfl rfl, hend,
      Effect.andThen_skip]
  rw [← hsecond]
  exact runsFrom_inside env [] rest _ _ hcode rfl rfl (Nat.zero_add _).symm

/-- A single instruction that does not jump is run as it is. -/
theorem runs_singleton {i : Instr} (hi : i.distance? = none) : env.Runs [i] = env.instr i := by
  have hend : env.RunsFrom [i] (0 + 1) = Effect.skip := runsFrom_length env rfl
  rw [Runs, runsFrom_instr rfl hi, hend, Effect.andThen_skip]

/-- An instruction that does not jump is followed by the code behind it. -/
theorem runs_cons {i : Instr} (hi : i.distance? = none) (hcode : Closed code) :
    env.Runs (i :: code) = (env.instr i).andThen (env.Runs code) := by
  have hone : Closed [i] := closed_cons hi closed_nil
  rw [← runs_singleton hi, ← runs_append hone hcode, List.singleton_append]

/-- Code that starts with an instruction whose step is known. -/
theorem runs_cons_of_step (env : Env) {i : Instr} {m : Machine} {r : Outcome}
    (hi : i.distance? = none) (hnot : ∀ ns index, i ≠ .template ns index)
    (hstep : (m.step env.schema env.tables i).outcome? = some r) (hcode : Closed code) (o : Outcome) :
    env.Runs (i :: code) m o ↔ (env.Runs code).proceed r o := by
  rw [runs_cons hi hcode, Effect.andThen_of_eq (instr_of_step env hnot hstep)]

/-- A single instruction that does not jump and calls no template ends in one step. -/
theorem runs_singleton_of_step (env : Env) {i : Instr} {m : Machine} {r : Outcome}
    (hi : i.distance? = none) (hnot : ∀ ns index, i ≠ .template ns index)
    (hstep : (m.step env.schema env.tables i).outcome? = some r) (o : Outcome) :
    env.Runs [i] m o ↔ o = r := by
  rw [runs_singleton hi]
  exact instr_of_step env hnot hstep o

end Env
end Stencil
