import Stencil.Proofs.Execution

/-!
# Template calls

What a template call does, from what its target does, and runs of programs as runs of code. A run
with bounded fuel only makes calls with less fuel, so a property of the templates of a program that
is preserved by calls follows by induction on the fuel.
-/

namespace Stencil

namespace Env

/-- Runs stay possible when calls can do more. -/
theorem RunsFrom.mono {env : Env} {code : List Instr} {pc : Nat} {m : Machine} {o : Outcome}
    (h : env.RunsFrom code pc m o) (env' : Env) (hschema : env.schema = env'.schema)
    (htables : env.tables = env'.tables)
    (hcall : ∀ ns name m o, env.call ns name m o → env'.call ns name m o) :
    env'.RunsFrom code pc m o := by
  have hinstr : ∀ i m o, env.instr i m o → env'.instr i m o := by
    intro i m o hi
    cases i
    case template ns name => exact hcall ns name m o hi
    all_goals
      simp only [instr, ← hschema, ← htables] at hi ⊢
      exact hi
  obtain ⟨n, h⟩ := h
  refine ⟨n, ?_⟩
  induction h with
  | stop hstop => exact .stop hstop
  | next hi hdo _ ih => exact .next hi (hinstr _ _ _ hdo) ih
  | fail hi hdo ho => exact .fail hi (hinstr _ _ _ hdo) ho
  | jump hi hstep htarget _ ih => exact .jump hi (hschema ▸ htables ▸ hstep) htarget ih
  | astray hi hstep htarget => exact .astray hi (hschema ▸ htables ▸ hstep) htarget

end Env

namespace Program

/-- What running a template from an offset on does with the given fuel. -/
def RunsWithin (p : Program) (fuel : Nat) (name : String) (t : CompiledTemplate) (pc : Nat) :
    Effect :=
  fun m o => (p.runFrom fuel name t pc m).outcome? = some o

/-- What running a template from an offset on does. -/
def RunsFrom (p : Program) (name : String) (t : CompiledTemplate) (pc : Nat) : Effect :=
  fun m o => ∃ fuel, p.RunsWithin fuel name t pc m o

/-- A call of a template, where `run` is what the templates do. -/
def enter (p : Program) (run : String → CompiledTemplate → Effect) (ns name : Nat) : Effect :=
  fun m o =>
    match m.callee p ns name with
    | .error e => Effect.fail e m o
    | .ok (ns, target, v) =>
      match p.templates[target]? with
      | none => Effect.fail (.undefinedTemplate target) m o
      | some t => ∃ r, run target t (m.activate ns v) r ∧ r.map m.leave = o

/-- A call whose target has only so much fuel. -/
def callWithin (p : Program) (fuel : Nat) : (ns name : Nat) → Effect :=
  p.enter fun name t => p.RunsWithin fuel name t 0

/-- A call of a template of the program. -/
def call (p : Program) : (ns name : Nat) → Effect := p.enter fun name t => p.RunsFrom name t 0

/-- What the instructions of a program refer to, with bounded fuel for calls. -/
def envWithin (p : Program) (fuel : Nat) : Env := ⟨p.schema, p.tables, p.callWithin fuel⟩

/-- What the instructions of a program refer to. -/
def env (p : Program) : Env := ⟨p.schema, p.tables, p.call⟩

variable {p : Program} {fuel : Nat} {name : String} {t : CompiledTemplate} {pc : Nat} {m : Machine}
  {o : Outcome}

/-- A call does more if the templates of the program do more. -/
theorem enter_mono {run run' : String → CompiledTemplate → Effect}
    (hrun : ∀ name t m o, run name t m o → run' name t m o) {ns index : Nat}
    (h : p.enter run ns index m o) : p.enter run' ns index m o := by
  unfold enter at h ⊢
  split at h
  · exact h
  · split at h
    · exact h
    · obtain ⟨r, hr, ho⟩ := h
      exact ⟨r, hrun _ _ _ _ hr, ho⟩

/-- More fuel does not change how a run ends. -/
theorem RunsWithin.of_le {more : Nat} (hle : fuel ≤ more) (h : p.RunsWithin fuel name t pc m o) :
    p.RunsWithin more name t pc m o := by
  unfold RunsWithin at h ⊢
  rw [runFrom_of_le hle, h]
  intro hout
  rw [hout] at h
  cases h

/-- A call that ends with some fuel ends in the same way with more. -/
theorem callWithin_of_le {more ns index : Nat} (hle : fuel ≤ more)
    (h : p.callWithin fuel ns index m o) : p.callWithin more ns index m o :=
  enter_mono (fun _ _ _ _ hrun => hrun.of_le hle) h

/-- A run that has failed ends as its error says. -/
theorem outcome?_failed {e : ExecutionError} :
    (Run.failed e m).outcome? = some o ↔ Effect.fail e.kind m o := by
  simp only [Run.outcome?, Option.some.injEq, Effect.fail]
  exact eq_comm

/-- A run that is at the end of its template is over. -/
theorem runsWithin_of_none (hnone : t.code[pc]? = none) :
    p.RunsWithin (fuel + 1) name t pc m o ↔ Effect.skip m o := by
  rw [RunsWithin, runFrom, hnone]
  simp only [Run.outcome?, Option.some.injEq, Effect.skip]
  exact eq_comm

/-- A run that is at a template call makes the call and goes on. -/
theorem runsWithin_of_template {ns index : Nat} (hi : t.code[pc]? = some (.template ns index)) :
    p.RunsWithin (fuel + 1) name t pc m o ↔
      (p.callWithin fuel ns index).andThen (p.RunsWithin fuel name t (pc + 1)) m o := by
  rw [RunsWithin, runFrom, hi]
  simp only
  cases hcallee : m.callee p ns index with
  | error e =>
    have hcall (r : Outcome) :
        p.callWithin fuel ns index m r ↔ r = .failed e m.sink m.streams := by
      simp only [callWithin, enter, hcallee, Effect.fail]
    rw [Effect.andThen_of_eq hcall]
    exact outcome?_failed
  | ok c =>
    obtain ⟨ns', target, v⟩ := c
    simp only
    cases htarget : p.templates[target]? with
    | none =>
      have hcall (r : Outcome) :
          p.callWithin fuel ns index m r ↔
            r = .failed (.undefinedTemplate target) m.sink m.streams := by
        simp only [callWithin, enter, hcallee, htarget, Effect.fail]
      rw [Effect.andThen_of_eq hcall]
      exact outcome?_failed
    | some u =>
      have hcall (r : Outcome) :
          p.callWithin fuel ns index m r ↔
            ∃ after, p.RunsWithin fuel target u 0 (m.activate ns' v) after ∧
              after.map m.leave = r := by
        simp only [callWithin, enter, hcallee, htarget]
      cases hrun : p.runFrom fuel target u 0 (m.activate ns' v) with
      | done after =>
        have hdone (r : Outcome) : p.callWithin fuel ns index m r ↔ r = .done (m.leave after) := by
          rw [hcall]
          simp [RunsWithin, hrun, Run.outcome?, eq_comm]
        rw [Effect.andThen_of_eq hdone]
        simp only [hrun]
        exact Iff.rfl
      | failed e after =>
        have hfailed (r : Outcome) :
            p.callWithin fuel ns index m r ↔ r = .failed e.kind after.sink after.streams := by
          rw [hcall]
          simp [RunsWithin, hrun, Run.outcome?, eq_comm]
        rw [Effect.andThen_of_eq hfailed]
        simp only [hrun]
        exact outcome?_failed
      | outOfFuel =>
        simp [Effect.andThen, hcall, RunsWithin, hrun, Run.outcome?]

/-- One instruction other than a call, as part of a run. -/
theorem runFrom_of_step {i : Instr} (hi : t.code[pc]? = some i)
    (hnot : ∀ ns index, i ≠ .template ns index) :
    p.runFrom (fuel + 1) name t pc m =
      match m.step p.schema p.tables i with
      | .next m' => p.runFrom fuel name t (pc + 1) m'
      | .jump k m' =>
        match jumpTarget? pc k t.code.size with
        | some target => p.runFrom fuel name t target m'
        | none => .failed ⟨Machine.jumpOutOfRange, t.locate name pc⟩ m'
      | .fail e m' => .failed ⟨e, t.locate name pc⟩ m' := by
  rw [runFrom, hi]
  split
  · next hnone => cases hnone
  · next hcall =>
    cases hcall
    exact absurd rfl (hnot _ _)
  · next hsome =>
    cases hsome
    rfl

/-- A run that is at any other instruction does its step and goes on. -/
theorem runsWithin_of_step {i : Instr} (hi : t.code[pc]? = some i)
    (hnot : ∀ ns index, i ≠ .template ns index) :
    p.RunsWithin (fuel + 1) name t pc m o ↔
      match m.step p.schema p.tables i with
      | .next m' => p.RunsWithin fuel name t (pc + 1) m' o
      | .jump k m' =>
        match jumpTarget? pc k t.code.size with
        | some target => p.RunsWithin fuel name t target m' o
        | none => Effect.fail Machine.jumpOutOfRange m' o
      | .fail e m' => Effect.fail e m' o := by
  rw [RunsWithin, runFrom_of_step hi hnot]
  cases m.step p.schema p.tables i with
  | next m' => exact Iff.rfl
  | fail e m' => exact outcome?_failed
  | jump k m' =>
    simp only
    cases jumpTarget? pc k t.code.size with
    | some target => exact Iff.rfl
    | none => exact outcome?_failed

/-- A run with bounded fuel is a run of the code with less fuel for the calls it makes. -/
theorem runsFrom_envWithin {bound : Nat} (hle : fuel ≤ bound + 1)
    (h : p.RunsWithin fuel name t pc m o) : (p.envWithin bound).RunsFrom t.code.toList pc m o := by
  induction fuel generalizing pc m with
  | zero => cases h
  | succ fuel ih =>
    have hless : fuel ≤ bound + 1 := by omega
    cases hi : t.code[pc]? with
    | none =>
      rw [runsWithin_of_none hi] at h
      exact ⟨0, h ▸ .stop (by simpa using hi)⟩
    | some i =>
      have hlist : t.code.toList[pc]? = some i := by simpa using hi
      by_cases hcall : ∃ ns index, i = .template ns index
      · obtain ⟨ns, index, rfl⟩ := hcall
        rw [runsWithin_of_template hi] at h
        have hbound : ∀ m o, p.callWithin fuel ns index m o →
            (p.envWithin bound).instr (.template ns index) m o :=
          fun _ _ hwithin => callWithin_of_le (by omega) hwithin
        rw [Env.runsFrom_instr hlist rfl]
        exact Effect.andThen_mono hbound (fun _ _ hrest => ih hless hrest) h
      · have hnot : ∀ ns index, i ≠ .template ns index := fun ns index hi => hcall ⟨ns, index, hi⟩
        rw [runsWithin_of_step hi hnot] at h
        cases hstep : m.step p.schema p.tables i with
        | next m' =>
          rw [hstep] at h
          obtain ⟨n, hrest⟩ := ih hless h
          have hdo : (p.envWithin bound).instr i m (.done m') := by
            rw [Env.instr_of_not_template hnot]
            exact congrArg Step.outcome? hstep
          exact ⟨n + 1, .next hlist hdo hrest⟩
        | fail e m' =>
          rw [hstep] at h
          have hdo : (p.envWithin bound).instr i m o := by
            rw [Env.instr_of_not_template hnot, h]
            exact congrArg Step.outcome? hstep
          exact ⟨0, .fail hlist hdo (h ▸ trivial)⟩
        | jump k m' =>
          rw [hstep] at h
          cases htarget : jumpTarget? pc k t.code.size with
          | some target =>
            simp only [htarget] at h
            obtain ⟨n, hrest⟩ := ih hless h
            exact ⟨n + 1, .jump hlist hstep (by simpa using htarget) hrest⟩
          | none =>
            simp only [htarget] at h
            exact ⟨0, h ▸ .astray hlist hstep (by simpa using htarget)⟩

/-- A call needs only so much fuel. -/
theorem exists_callWithin {ns index : Nat} (h : p.call ns index m o) :
    ∃ fuel, p.callWithin fuel ns index m o := by
  unfold call enter at h
  unfold callWithin enter
  split at h
  · exact ⟨0, h⟩
  · split at h
    · exact ⟨0, h⟩
    · obtain ⟨r, ⟨fuel, hrun⟩, ho⟩ := h
      exact ⟨fuel, r, hrun, ho⟩

/-- An instruction of a program and a run behind it make a run in front of it. -/
theorem runsFrom_of_instr {i : Instr} {m' : Machine} (hi : t.code[pc]? = some i)
    (hdo : p.env.instr i m (.done m')) (hrest : p.RunsFrom name t (pc + 1) m' o) :
    p.RunsFrom name t pc m o := by
  obtain ⟨fuel, hrest⟩ := hrest
  by_cases hcall : ∃ ns index, i = .template ns index
  · obtain ⟨ns, index, rfl⟩ := hcall
    obtain ⟨fuel', hwithin⟩ := exists_callWithin hdo
    refine ⟨max fuel fuel' + 1, (runsWithin_of_template hi).mpr (Or.inl ⟨m', ?_, ?_⟩)⟩
    · exact callWithin_of_le (by omega) hwithin
    · exact hrest.of_le (by omega)
  · have hnot : ∀ ns index, i ≠ .template ns index := fun ns index hi => hcall ⟨ns, index, hi⟩
    rw [Env.instr_of_not_template hnot] at hdo
    refine ⟨fuel + 1, (runsWithin_of_step hi hnot).mpr ?_⟩
    cases hstep : m.step p.schema p.tables i <;>
      simp only [env, hstep, Step.outcome?, reduceCtorEq, Option.some.injEq, Outcome.done.injEq] at hdo
    exact hdo ▸ hrest

/-- An instruction of a program that fails makes a run that fails. -/
theorem runsFrom_of_fails {i : Instr} (hi : t.code[pc]? = some i) (hdo : p.env.instr i m o)
    (ho : o.Fails) : p.RunsFrom name t pc m o := by
  by_cases hcall : ∃ ns index, i = .template ns index
  · obtain ⟨ns, index, rfl⟩ := hcall
    obtain ⟨fuel, hwithin⟩ := exists_callWithin hdo
    exact ⟨fuel + 1, (runsWithin_of_template hi).mpr (Or.inr ⟨ho, hwithin⟩)⟩
  · have hnot : ∀ ns index, i ≠ .template ns index := fun ns index hi => hcall ⟨ns, index, hi⟩
    rw [Env.instr_of_not_template hnot] at hdo
    refine ⟨1, (runsWithin_of_step hi hnot).mpr ?_⟩
    cases hstep : m.step p.schema p.tables i <;>
      simp only [env, hstep, Step.outcome?, reduceCtorEq, Option.some.injEq] at hdo
    · exact (hdo ▸ ho).elim
    · exact hdo.symm

/-- A run of the code is a run with enough fuel. -/
theorem runsFrom_of_env (h : p.env.RunsFrom t.code.toList pc m o) : p.RunsFrom name t pc m o := by
  obtain ⟨n, h⟩ := h
  have hnot {m m' : Machine} {i : Instr} {k : Int}
      (hstep : m.step p.schema p.tables i = .jump k m') : ∀ ns index, i ≠ .template ns index := by
    intro ns index hi
    subst hi
    cases hstep
  induction h with
  | stop hstop => exact ⟨1, (runsWithin_of_none (by simpa using hstop)).mpr rfl⟩
  | next hi hdo _ ih => exact runsFrom_of_instr (by simpa using hi) hdo ih
  | fail hi hdo ho => exact runsFrom_of_fails (by simpa using hi) hdo ho
  | jump hi hstep htarget _ ih =>
    obtain ⟨fuel, hrest⟩ := ih
    refine ⟨fuel + 1, (runsWithin_of_step (by simpa using hi) (hnot hstep)).mpr ?_⟩
    rw [Array.length_toList] at htarget
    simp only [env] at hstep
    simpa only [hstep, htarget] using hrest
  | astray hi hstep htarget =>
    refine ⟨1, (runsWithin_of_step (by simpa using hi) (hnot hstep)).mpr ?_⟩
    rw [Array.length_toList] at htarget
    simp only [env] at hstep
    simp only [hstep, htarget, Effect.fail]

/-- Running a template is running its code. -/
theorem runsFrom_eq (p : Program) (name : String) (t : CompiledTemplate) (pc : Nat) :
    p.RunsFrom name t pc = p.env.RunsFrom t.code.toList pc := by
  funext m o
  apply propext
  constructor
  · rintro ⟨fuel, h⟩
    have hcalls : ∀ ns index m o, (p.envWithin fuel).call ns index m o → p.env.call ns index m o :=
      fun _ _ _ _ hcall => enter_mono (fun _ _ _ _ hrun => ⟨fuel, hrun⟩) hcall
    exact (runsFrom_envWithin (Nat.le_succ fuel) h).mono p.env rfl rfl hcalls
  · exact runsFrom_of_env

/-- What running a template with its data and variables does. -/
def Renders (p : Program) (name : String) (data vars : Value) : Effect :=
  fun m o => ∃ fuel, (p.run fuel name data vars m).outcome? = some o

/-- Running a template is running its code in a fresh activation. -/
theorem renders_iff {data vars : Value} (ht : p.templates[name]? = some t) :
    p.Renders name data vars m o ↔
      p.env.Runs t.code.toList ((m.bind Tables.varsVar vars).activate "" data) o := by
  simp only [Renders, run, ht]
  rw [Env.Runs, ← runsFrom_eq p name t 0]
  exact Iff.rfl

/-- Running a template that does not exist fails. -/
theorem renders_iff_of_none {data vars : Value} (hnone : p.templates[name]? = none) :
    p.Renders name data vars m o ↔
      o = .failed (.undefinedTemplate name) m.sink m.streams := by
  simp only [Renders, run, hnone, Run.outcome?, Option.some.injEq, exists_const]
  exact eq_comm

/-- A template does the same in two programs if its codes do the same. -/
theorem renders_congr {q : Program} {data vars : Value}
    (hmissing : p.templates[name]? = none ↔ q.templates[name]? = none)
    (hcode : ∀ t u, p.templates[name]? = some t → q.templates[name]? = some u →
      p.env.Runs t.code.toList = q.env.Runs u.code.toList) :
    p.Renders name data vars = q.Renders name data vars := by
  funext m o
  apply propext
  cases ht : p.templates[name]? with
  | none => rw [renders_iff_of_none ht, renders_iff_of_none (hmissing.mp ht)]
  | some t =>
    cases hu : q.templates[name]? with
    | none => simp [hmissing.mpr hu] at ht
    | some u => rw [renders_iff ht, renders_iff hu, hcode t u ht hu]

/-- A call runs the code of its target. -/
theorem call_eq (p : Program) : p.call = p.enter fun _ t => p.env.Runs t.code.toList := by
  simp only [call, runsFrom_eq]
  rfl

/-- A call whose target has fuel runs the code of the target with less fuel for its calls. -/
theorem callWithin_succ {ns index : Nat} (h : p.callWithin (fuel + 1) ns index m o) :
    p.enter (fun _ t => (p.envWithin fuel).Runs t.code.toList) ns index m o :=
  enter_mono (fun _ _ _ _ hrun => runsFrom_envWithin (Nat.le_refl _) hrun) h

end Program
end Stencil
