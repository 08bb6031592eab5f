import Stencil.Proofs.Calls

/-!
# Executions

How a run of a template goes, told by rules: one instruction after the other, where a call stands for the
run of its target. A run that has ended with some fuel is told by the rules, and what the rules tell is a
run with enough fuel, so what all runs have in common is shown by induction on the rules.
-/

namespace Stencil

namespace Program

/-- Whether a run of a template from an offset on ends in a given way. -/
inductive Executes (p : Program) : String → CompiledTemplate → Nat → Machine → Run → Prop where
  | stop {name : String} {t : CompiledTemplate} {pc : Nat} {m : Machine}
      (hend : t.code.toList.length ≤ pc) : Executes p name t pc m (.done m)
  | next {name : String} {t : CompiledTemplate} {pc : Nat} {m m' : Machine} {i : Instr} {r : Run}
      (hi : t.code.toList[pc]? = some i) (hnot : ∀ ns index, i ≠ .template ns index)
      (hstep : m.step p.schema p.tables i = .next m') (hrest : Executes p name t (pc + 1) m' r) :
      Executes p name t pc m r
  | jump {name : String} {t : CompiledTemplate} {pc target : Nat} {m m' : Machine} {i : Instr} {k : Int}
      {r : Run} (hi : t.code.toList[pc]? = some i) (hstep : m.step p.schema p.tables i = .jump k m')
      (htarget : jumpTarget? pc k t.code.toList.length = some target)
      (hrest : Executes p name t target m' r) : Executes p name t pc m r
  | call {name target nsName : String} {t u : CompiledTemplate} {pc ns index : Nat} {m after : Machine}
      {v : Value} {r : Run} (hi : t.code.toList[pc]? = some (.template ns index))
      (hcallee : m.callee p ns index = .ok (nsName, target, v)) (hu : p.templates[target]? = some u)
      (hbody : Executes p target u 0 (m.activate nsName v) (.done after))
      (hrest : Executes p name t (pc + 1) (m.leave after) r) : Executes p name t pc m r
  | raise {name target nsName : String} {t u : CompiledTemplate} {pc ns index : Nat} {m after : Machine}
      {v : Value} {e : ExecutionError} (hi : t.code.toList[pc]? = some (.template ns index))
      (hcallee : m.callee p ns index = .ok (nsName, target, v)) (hu : p.templates[target]? = some u)
      (hbody : Executes p target u 0 (m.activate nsName v) (.failed e after)) :
      Executes p name t pc m (.failed (e.orLocate (t.locate name pc)) after)
  | fail {name : String} {t : CompiledTemplate} {pc : Nat} {m m' : Machine} {i : Instr} {e : RuntimeError}
      (hi : t.code.toList[pc]? = some i) (hnot : ∀ ns index, i ≠ .template ns index)
      (hstep : m.step p.schema p.tables i = .fail e m') :
      Executes p name t pc m (.failed ⟨e, t.locate name pc⟩ m')
  | astray {name : String} {t : CompiledTemplate} {pc : Nat} {m m' : Machine} {i : Instr} {k : Int}
      (hi : t.code.toList[pc]? = some i) (hstep : m.step p.schema p.tables i = .jump k m')
      (htarget : jumpTarget? pc k t.code.toList.length = none) :
      Executes p name t pc m (.failed ⟨Machine.jumpOutOfRange, t.locate name pc⟩ m')
  | uncalled {name : String} {t : CompiledTemplate} {pc ns index : Nat} {m : Machine} {e : RuntimeError}
      (hi : t.code.toList[pc]? = some (.template ns index)) (hcallee : m.callee p ns index = .error e) :
      Executes p name t pc m (.failed ⟨e, t.locate name pc⟩ m)
  | missing {name target nsName : String} {t : CompiledTemplate} {pc ns index : Nat} {m : Machine}
      {v : Value} (hi : t.code.toList[pc]? = some (.template ns index))
      (hcallee : m.callee p ns index = .ok (nsName, target, v)) (hnone : p.templates[target]? = none) :
      Executes p name t pc m (.failed ⟨.undefinedTemplate target, t.locate name pc⟩ m)

variable {p : Program} {fuel pc : Nat} {name : String} {t : CompiledTemplate} {m after : Machine}
  {r : Run} {e : ExecutionError}

/-- An instruction that jumps calls no template. -/
theorem ne_template_of_step_jump {schema : Schema} {tables : Tables} {i : Instr} {k : Int} {m' : Machine}
    (h : m.step schema tables i = .jump k m') (ns index : Nat) : i ≠ .template ns index := by
  rintro rfl
  cases h

/-- A run that has ended is told by the rules. -/
theorem executes_of_runFrom (h : p.runFrom fuel name t pc m = r) (hends : r ≠ .outOfFuel) :
    p.Executes name t pc m r := by
  induction fuel generalizing name t pc m r with
  | zero => exact absurd h.symm hends
  | succ fuel ih =>
    rw [runFrom] at h
    split at h
    · next hnone =>
      subst h
      exact .stop (by simpa using hnone)
    · next ns index hi =>
      have hi : t.code.toList[pc]? = some (.template ns index) := by simpa using hi
      split at h
      · next e hcallee =>
        subst h
        exact .uncalled hi hcallee
      · next nsName target v hcallee =>
        split at h
        · next hnone =>
          subst h
          exact .missing hi hcallee hnone
        · next u hu =>
          split at h
          · next after hbody => exact .call hi hcallee hu (ih hbody (by simp)) (ih h hends)
          · next e after hbody =>
            subst h
            exact .raise hi hcallee hu (ih hbody (by simp))
          · exact absurd h.symm hends
    · next i hnot hi =>
      have hi : t.code.toList[pc]? = some i := by simpa using hi
      split at h
      · next m' hstep => exact .next hi hnot hstep (ih h hends)
      · next k m' hstep =>
        split at h
        · next target htarget => exact .jump hi hstep (by simpa using htarget) (ih h hends)
        · next htarget =>
          subst h
          exact .astray hi hstep (by simpa using htarget)
      · next e m' hstep =>
        subst h
        exact .fail hi hnot hstep

/-- What the rules tell has ended. -/
theorem Executes.ne_outOfFuel (h : p.Executes name t pc m r) : r ≠ .outOfFuel := by
  induction h with
  | next _ _ _ _ ih | jump _ _ _ _ ih | call _ _ _ _ _ _ ih => exact ih
  | _ => simp

/-- What the rules tell is a run with enough fuel. -/
theorem Executes.exists_fuel (h : p.Executes name t pc m r) : ∃ fuel, p.runFrom fuel name t pc m = r := by
  induction h with
  | stop hend => exact ⟨1, by rw [runFrom, Array.getElem?_eq_none (by simpa using hend)]⟩
  | next hi hnot hstep _ ih =>
    obtain ⟨fuel, hrest⟩ := ih
    refine ⟨fuel + 1, ?_⟩
    rw [runFrom_of_step (by simpa using hi) hnot, hstep]
    exact hrest
  | @jump _ _ _ _ _ _ i k _ hi hstep htarget _ ih =>
    obtain ⟨fuel, hrest⟩ := ih
    rw [Array.length_toList] at htarget
    refine ⟨fuel + 1, ?_⟩
    rw [runFrom_of_step (by simpa using hi) (ne_template_of_step_jump hstep), hstep]
    simp only [htarget, hrest]
  | @call name target nsName t u pc _ _ m after v r hi hcallee hu hbody hrest ihbody ihrest =>
    obtain ⟨inner, hinner⟩ := ihbody
    obtain ⟨outer, houter⟩ := ihrest
    have hinner' : p.runFrom (max inner outer) target u 0 (m.activate nsName v) = .done after := by
      rw [runFrom_of_le (Nat.le_max_left _ _) (hinner ▸ hbody.ne_outOfFuel), hinner]
    have houter' : p.runFrom (max inner outer) name t (pc + 1) (m.leave after) = r := by
      rw [runFrom_of_le (Nat.le_max_right _ _) (houter ▸ hrest.ne_outOfFuel), houter]
    refine ⟨max inner outer + 1, ?_⟩
    rw [Array.getElem?_toList] at hi
    simp only [runFrom, hi, hcallee, hu, hinner', houter']
  | raise hi hcallee hu _ ih =>
    obtain ⟨fuel, hbody⟩ := ih
    rw [Array.getElem?_toList] at hi
    exact ⟨fuel + 1, by simp only [runFrom, hi, hcallee, hu, hbody]⟩
  | fail hi hnot hstep => exact ⟨1, by rw [runFrom_of_step (by simpa using hi) hnot, hstep]⟩
  | astray hi hstep htarget =>
    rw [Array.length_toList] at htarget
    refine ⟨1, ?_⟩
    rw [runFrom_of_step (by simpa using hi) (ne_template_of_step_jump hstep), hstep]
    simp only [htarget]
  | uncalled hi hcallee =>
    rw [Array.getElem?_toList] at hi
    exact ⟨1, by simp only [runFrom, hi, hcallee]⟩
  | missing hi hcallee hnone =>
    rw [Array.getElem?_toList] at hi
    exact ⟨1, by simp only [runFrom, hi, hcallee, hnone]⟩

/-- The rules tell exactly how runs end. -/
theorem executes_iff : p.Executes name t pc m r ↔ ∃ fuel, p.runFrom fuel name t pc m = r ∧ r ≠ .outOfFuel := by
  constructor
  · intro h
    obtain ⟨fuel, hrun⟩ := h.exists_fuel
    exact ⟨fuel, hrun, h.ne_outOfFuel⟩
  · rintro ⟨fuel, hrun, hends⟩
    exact executes_of_runFrom hrun hends

end Program
end Stencil
