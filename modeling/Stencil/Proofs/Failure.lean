import Stencil.Proofs.Straight

/-!
# Ordinary failures

The errors that a template or its data can be blamed for. The errors that remain say that the
compiled code is malformed, or that it calls a template that does not exist.
-/

namespace Stencil

namespace RuntimeError

/-- Whether an error can be the fault of the template or its data and not of the compiler. -/
def Ordinary : RuntimeError → Prop
  | invalidCode _ | undefinedTemplate _ => False
  | _ => True

end RuntimeError

namespace Machine

variable {schema : Schema} {t : Tables} {i : Instr}

/-- A result that fails to be pushed fails as the call has failed. -/
theorem ordinary_pushResult {r : Except RuntimeError Value} {e : RuntimeError} {l l' : Machine}
    (hr : ∀ e, r = .error e → e.Ordinary) (h : l.pushResult r = .fail e l') : e.Ordinary := by
  cases r <;> cases h
  exact hr _ rfl

/-- Writing fails ordinarily. -/
theorem ordinary_write {bytes : ByteArray} {e : RuntimeError} {l l' : Machine}
    (h : l.write bytes = .fail e l') : e.Ordinary := by
  unfold write at h
  split at h <;> cases h
  trivial

end Machine

namespace Call

/-- A function that fails by itself fails ordinarily. -/
theorem ordinary_returned {name : String} {r : Except String Value} {e : RuntimeError}
    (h : returned name r = .error e) : e.Ordinary := by
  cases r <;> cases h
  trivial

/-- A wrong number of arguments is an ordinary failure. -/
theorem ordinary_checkArity {name : String} {sig : Signature} {given : Nat} {e : RuntimeError}
    (h : checkArity name sig given = .error e) : e.Ordinary := by
  have hcheck (fits : Prop) [Decidable fits] (r : RuntimeError)
      (h : (if fits then Except.ok () else .error r) = .error e) : e = r := by
    split at h <;> cases h
    rfl
  rw [hcheck _ _ h]
  trivial

/-- An argument of the wrong type is an ordinary failure. -/
theorem ordinary_coerceArgs {name : String} {sig : Signature} {index : Nat} {args : List Value}
    {e : RuntimeError} (h : coerceArgs name sig index args = .error e) : e.Ordinary := by
  induction args generalizing index with
  | nil => cases h
  | cons v rest ih =>
    rw [coerceArgs] at h
    cases hrest : coerceArgs name sig (index + 1) rest with
    | error e' =>
      rw [hrest] at h
      split at h
      · cases h
        exact ih hrest
      · split at h
        · cases h
          trivial
        · cases h
          exact ih hrest
    | ok values =>
      rw [hrest] at h
      split at h
      · cases h
      · split at h <;> cases h
        trivial

/-- Preparing arguments fails ordinarily. -/
theorem ordinary_prepare {name : String} {sig : Signature} {args : List Value} {e : RuntimeError}
    (h : prepare name sig args = .error e) : e.Ordinary := by
  unfold prepare at h
  cases harity : checkArity name sig args.length with
  | error e' =>
    rw [harity] at h
    cases h
    exact ordinary_checkArity harity
  | ok _ =>
    rw [harity] at h
    exact ordinary_coerceArgs h

/-- A call fails in an ordinary way. -/
theorem ordinary_function {f : Function} {args : List Value} {e : RuntimeError}
    (h : function f args = .error e) : e.Ordinary := by
  unfold function at h
  cases hargs : prepare f.name f.sig args with
  | error e' =>
    rw [hargs] at h
    cases h
    exact ordinary_prepare hargs
  | ok values =>
    rw [hargs] at h
    exact ordinary_returned h

/-- A method fails ordinarily. -/
theorem ordinary_method {m : Method} {receiver : Value} {args : List Value} {e : RuntimeError}
    (h : method m receiver args = .error e) : e.Ordinary := by
  unfold method at h
  cases hargs : prepare m.name m.sig args with
  | error e' =>
    rw [hargs] at h
    cases h
    exact ordinary_prepare hargs
  | ok values =>
    rw [hargs] at h
    exact ordinary_returned h

end Call

namespace Value

/-- A value that cannot be printed is an ordinary failure. -/
theorem ordinary_printed {schema : Schema} {v : Value} {e : RuntimeError}
    (h : v.printed schema = .error e) : e.Ordinary := by
  fun_induction printed schema v with
  | case5 v _ ih => exact ih h
  | case6 v ih => exact ih h
  | case7 | case8 =>
    cases h
    trivial
  | _ => cases h

/-- A missing field is an ordinary failure. -/
theorem ordinary_missingField {schema : Schema} {name : String} {v : Value} :
    (missingField schema name v).Ordinary := by
  unfold missingField
  split
  · split <;> trivial
  · trivial

/-- A field that does not exist is an ordinary failure. -/
theorem ordinary_plainField {schema : Schema} {name : String} {v : Value} {e : RuntimeError}
    (h : v.plainField schema name = .error e) : e.Ordinary := by
  unfold plainField at h
  split at h
  · cases h
  · cases h
  · split at h <;> cases h
    exact ordinary_missingField
  · cases h
    exact ordinary_missingField

end Value

/-- A value that cannot be iterated over is an ordinary failure. -/
theorem Iteration.ordinary_start {v : Value} {e : RuntimeError}
    (h : Iteration.start v = .error e) : e.Ordinary := by
  fun_induction Iteration.start v with
  | case4 v ih | case5 v ih => exact ih h
  | case9 =>
    cases h
    trivial
  | _ => cases h

namespace Machine

variable {schema : Schema} {t : Tables} {i : Instr} {l l' : Machine} {e : RuntimeError}

/-- A field access fails ordinarily if its operands are on the stack. -/
theorem ordinary_fieldOf {name : String} {argc : Nat} {v : Value} (hargc : argc ≤ l.stack.length)
    (h : l.fieldOf schema name argc v = .fail e l') : e.Ordinary := by
  unfold fieldOf at h
  split at h
  · cases h
  · split at h
    · rw [popArgs?, if_pos hargc] at h
      exact ordinary_pushResult (fun e he => Call.ordinary_method he) h
    · split at h
      · cases h
      · exact ordinary_pushResult (fun e he => Value.ordinary_plainField he) h

/-- An instruction whose operands are valid and that finds the values it may take can only fail in
an ordinary way. -/
theorem ordinary_step (hi : i.isStraight) (hvalid : i.Valid t) (htakes : i.takes ≤ l.stack.length)
    (h : l.step schema t i = .fail e l') : e.Ordinary := by
  cases i <;> simp only [Instr.isStraight, Bool.false_eq_true] at hi <;>
    simp only [step, invalid] at h
  case dot => cases h
  case string index | val index =>
    rw [Array.getElem?_eq_getElem hvalid] at h
    cases h
  case wb index =>
    rw [Array.getElem?_eq_getElem hvalid] at h
    exact ordinary_write h
  case var name =>
    split at h <;> cases h
    trivial
  case func argc index =>
    rw [Array.getElem?_eq_getElem hvalid] at h
    simp only [popArgs?, if_pos (show argc ≤ l.stack.length from htakes)] at h
    exact ordinary_pushResult (fun e he => Call.ordinary_function he) h
  case field argc name =>
    rw [Array.getElem?_eq_getElem hvalid] at h
    split at h
    · next hnone => cases hnone
    · split at h
      · next hstack => simp [Instr.takes, hstack] at htakes
      · next v stack hstack =>
        refine ordinary_fieldOf ?_ h
        simpa [Instr.takes, hstack] using htakes
  case print =>
    split at h
    · next hstack => simp [Instr.takes, hstack] at htakes
    · rw [print_eq] at h
      split at h
      · next hprinted =>
        cases h
        exact Value.ordinary_printed hprinted
      · exact ordinary_write h
  case setVar name assign =>
    split at h
    · next hstack => simp [Instr.takes, hstack] at htakes
    · cases assign with
      | false => cases h
      | true =>
        simp only [if_true] at h
        split at h <;> cases h
        trivial

/-- Straight-line code whose operands are valid and that finds the values it may take can only fail
in an ordinary way. -/
theorem ordinary_steps {code : List Instr} {before after : Nat} {sink : Sink} {streams : Streams}
    (hcode : Straight code) (hvalid : ∀ i ∈ code, i.Valid t) (hleaves : Leaves code before after)
    (hbefore : before ≤ l.stack.length) (h : l.steps schema t code = .failed e sink streams) :
    e.Ordinary := by
  induction code generalizing l before with
  | nil => cases h
  | cons i code ih =>
    obtain ⟨htakes, hleaves⟩ := hleaves
    rw [steps] at h
    cases hstep : l.step schema t i with
    | next l₁ =>
      rw [hstep] at h
      have hfirst := (follows_step hcode.head hstep).2
      exact ih hcode.tail (fun j hj => hvalid j (List.mem_cons_of_mem i hj)) hleaves (by omega) h
    | jump k l₁ =>
      have := Instr.distance?_of_isStraight hcode.head
      rw [distance?_of_step_jump hstep] at this
      cases this
    | fail e' l₁ =>
      rw [hstep] at h
      cases h
      exact ordinary_step hcode.head (hvalid i List.mem_cons_self) (by omega) hstep

end Machine
end Stencil
