import Stencil.Proofs.Executions
import Stencil.Proofs.Points

/-!
# Trails of runs

What a run has done on its way to a point: the points at which it has executed an instruction, in order,
with those of the templates that it has called and left again. Wherever a run gets it has left a trail,
and what a trail leads to is reached.
-/

namespace Stencil

namespace Program

variable {p : Program} {start P Q R : Point} {past more : List Point}

/-- The trail of a run from one point to another one. A call that has been left is followed by the points
of its target, which has got to its end. -/
inductive Trail (p : Program) : Point → List Point → Point → Prop where
  | refl (P : Point) : Trail p P [] P
  | next {P Q : Point} {past : List Point} {i : Instr} {m : Machine} (hpast : Trail p P past Q)
      (hi : Q.code[Q.pc]? = some i) (hstep : Q.machine.step p.schema p.tables i = .next m) :
      Trail p P (past ++ [Q]) { Q with pc := Q.pc + 1, machine := m }
  | jump {P Q : Point} {past : List Point} {i : Instr} {k : Int} {m : Machine} {target : Nat}
      (hpast : Trail p P past Q) (hi : Q.code[Q.pc]? = some i)
      (hstep : Q.machine.step p.schema p.tables i = .jump k m)
      (htarget : jumpTarget? Q.pc k Q.code.length = some target) :
      Trail p P (past ++ [Q]) { Q with pc := target, machine := m }
  | call {P Q : Point} {past : List Point} {ns index : Nat} {nsName target : String} {v : Value}
      {u : CompiledTemplate} (hpast : Trail p P past Q) (hi : Q.code[Q.pc]? = some (.template ns index))
      (hcallee : Q.machine.callee p ns index = .ok (nsName, target, v))
      (hu : p.templates[target]? = some u) :
      Trail p P (past ++ [Q]) ⟨target :: Q.chain, u.code.toList, 0, Q.machine.activate nsName v⟩
  | leave {P Q : Point} {past inner : List Point} {ns index pc : Nat} {nsName target : String} {v : Value}
      {u : CompiledTemplate} {after : Machine} (hpast : Trail p P past Q)
      (hi : Q.code[Q.pc]? = some (.template ns index))
      (hcallee : Q.machine.callee p ns index = .ok (nsName, target, v))
      (hu : p.templates[target]? = some u)
      (hinner : Trail p ⟨target :: Q.chain, u.code.toList, 0, Q.machine.activate nsName v⟩ inner
        ⟨target :: Q.chain, u.code.toList, pc, after⟩) (hend : u.code.toList.length ≤ pc) :
      Trail p P (past ++ Q :: inner) { Q with pc := Q.pc + 1, machine := Q.machine.leave after }

/-- A trail goes on where another one has ended. -/
theorem Trail.trans (h : p.Trail P past Q) (h' : p.Trail Q more R) : p.Trail P (past ++ more) R := by
  induction h' with
  | refl => rwa [List.append_nil]
  | next _ hi hstep ih => rw [← List.append_assoc]; exact .next (ih h) hi hstep
  | jump _ hi hstep htarget ih => rw [← List.append_assoc]; exact .jump (ih h) hi hstep htarget
  | call _ hi hcallee hu ih => rw [← List.append_assoc]; exact .call (ih h) hi hcallee hu
  | leave _ hi hcallee hu hinner hend ih =>
    rw [← List.append_assoc]
    exact .leave (ih h) hi hcallee hu hinner hend

/-- A run that succeeds ends with its machine. -/
theorem runFrom_of_runsWithin {name : String} {u : CompiledTemplate} {fuel pc : Nat} {m after : Machine}
    (h : p.RunsWithin fuel name u pc m (.done after)) : p.runFrom fuel name u pc m = .done after := by
  rw [RunsWithin] at h
  cases hresult : p.runFrom fuel name u pc m <;>
    simp only [hresult, Run.outcome?, reduceCtorEq, Option.some.injEq, Outcome.done.injEq] at h
  rw [h]

/-- A run that has ended has left a trail to its end. -/
theorem Executes.exists_trail {name : String} {u : CompiledTemplate} {pc : Nat} {m after : Machine}
    {r : Run} (h : p.Executes name u pc m r) (hdone : r = .done after) (chain : List String) :
    ∃ past out, u.code.toList.length ≤ out ∧
      p.Trail ⟨chain, u.code.toList, pc, m⟩ past ⟨chain, u.code.toList, out, after⟩ := by
  induction h generalizing after chain with
  | stop hend =>
    cases hdone
    exact ⟨[], _, hend, .refl _⟩
  | @next _ u pc m _ _ _ hi _ hstep _ ih =>
    obtain ⟨past, out, hend, hpast⟩ := ih hdone chain
    exact ⟨_, out, hend, (Trail.next (.refl ⟨chain, u.code.toList, pc, m⟩) hi hstep).trans hpast⟩
  | @jump _ u pc _ m _ _ _ _ hi hstep htarget _ ih =>
    obtain ⟨past, out, hend, hpast⟩ := ih hdone chain
    exact ⟨_, out, hend,
      (Trail.jump (.refl ⟨chain, u.code.toList, pc, m⟩) hi hstep htarget).trans hpast⟩
  | @call _ target _ u _ pc _ _ m _ _ _ hi hcallee hu _ _ ihbody ihrest =>
    obtain ⟨inner, out, hend, hinner⟩ := ihbody rfl (target :: chain)
    obtain ⟨past, out', hend', hpast⟩ := ihrest hdone chain
    have hleave := Trail.leave (.refl ⟨chain, u.code.toList, pc, m⟩) hi hcallee hu hinner hend
    exact ⟨_, out', hend', hleave.trans hpast⟩
  | raise | fail | astray | uncalled | missing => cases hdone

/-- Wherever a run gets it has left a trail. -/
theorem Reaches.exists_trail (h : p.Reaches start P) : ∃ past, p.Trail start past P := by
  induction h with
  | refl => exact ⟨[], .refl start⟩
  | @next P i m _ hi hdo ih =>
    obtain ⟨past, hpast⟩ := ih
    by_cases hcall : ∃ ns index, i = .template ns index
    · obtain ⟨ns, index, rfl⟩ := hcall
      obtain ⟨nsName, target, v, u, after, hcallee, hu, hrun, rfl⟩ := enter_eq_done hdo
      obtain ⟨fuel, hrun⟩ := hrun
      have hexecutes := executes_of_runFrom (runFrom_of_runsWithin hrun) nofun
      obtain ⟨inner, out, hend, hinner⟩ := hexecutes.exists_trail rfl (target :: P.chain)
      exact ⟨_, .leave hpast hi hcallee hu hinner hend⟩
    · have hnot : ∀ ns index, i ≠ .template ns index := fun ns index heq => hcall ⟨ns, index, heq⟩
      exact ⟨_, .next hpast hi ((Env.instr_eq_done hnot).mp hdo)⟩
  | jump _ hi hstep htarget ih =>
    obtain ⟨past, hpast⟩ := ih
    exact ⟨_, .jump hpast hi hstep htarget⟩
  | call _ hi hcallee hu ih =>
    obtain ⟨past, hpast⟩ := ih
    exact ⟨_, .call hpast hi hcallee hu⟩

/-- The templates that are running at a point are running at those it leads to. -/
theorem Reaches.chain_suffix (h : p.Reaches P Q) : P.chain <:+ Q.chain := by
  induction h with
  | refl => exact List.suffix_refl _
  | next _ _ _ ih | jump _ _ _ _ ih => exact ih
  | call _ _ _ _ ih => exact ih.trans (List.suffix_cons _ _)

/-- What a run does from a point on that lies in the same activation it does from the point before. -/
theorem Reaches.runsFrom (h : p.Reaches P Q) (hchain : Q.chain = P.chain) {o : Outcome}
    (hrun : p.env.RunsFrom Q.code Q.pc Q.machine o) : p.env.RunsFrom P.code P.pc P.machine o := by
  induction h with
  | refl => exact hrun
  | next _ hi hdo ih =>
    obtain ⟨n, hrun⟩ := hrun
    exact ih hchain ⟨n + 1, .next hi hdo hrun⟩
  | jump _ hi hstep htarget ih =>
    obtain ⟨n, hrun⟩ := hrun
    exact ih hchain ⟨n + 1, .jump hi hstep htarget hrun⟩
  | call hreach _ _ _ _ =>
    have hlength := hreach.chain_suffix.length_le
    rw [← hchain, List.length_cons] at hlength
    omega

/-- What a trail leads to is reached. -/
theorem Trail.reaches (h : p.Trail P past Q) : p.Reaches P Q := by
  induction h with
  | refl => exact .refl
  | next _ hi hstep ih =>
    refine ih.next hi ((Env.instr_eq_done fun ns index heq => ?_).mpr hstep)
    subst heq
    cases hstep
  | jump _ hi hstep htarget ih => exact ih.jump hi hstep htarget
  | call _ hi hcallee hu ih => exact ih.call hi hcallee hu
  | @leave P Q past inner ns index pc nsName target v u after _ hi hcallee hu _ hend ih ihinner =>
    have hbody := ihinner.runsFrom rfl ⟨0, .stop hend⟩
    have hcall : p.call ns index Q.machine (.done (Q.machine.leave after)) := by
      rw [call_eq, enter]
      simp only [hcallee, hu]
      exact ⟨_, hbody, rfl⟩
    exact ih.next hi hcall

/-- What is reached is what a trail leads to. -/
theorem reaches_iff_exists_trail : p.Reaches start P ↔ ∃ past, p.Trail start past P :=
  ⟨Reaches.exists_trail, fun ⟨_, h⟩ => h.reaches⟩

end Program
end Stencil
