import Stencil.Proofs.AlikeStatements

/-!
# Full tables

Which steps of compilation can only fail because a table has no room left. Folding and printing a value
are such steps, as they look up no names, and code that a `POP` balances is never refused for its
balance.
-/

namespace Stencil

open Fragment (Balances)

namespace Compile

variable {c : Context} {pos : Pos} {s s₁ : State} {f g : Fragment} {pop : Option Nat}

/-- A step that succeeds is followed by the next one. -/
theorem bind_of_eq_ok {α β : Type} {x : M α} {next : α → M β} {a : α} (h : x s = .ok (a, s₁)) :
    (x >>= next) s = next a s₁ := by
  show Except.bind (x s) _ = _
  rw [h]
  rfl

/-- A step that fails is the last one. -/
theorem bind_of_eq_error {α β : Type} {x : M α} {next : α → M β} {e : CompileError}
    (h : x s = .error e) : (x >>= next) s = .error e := by
  show Except.bind (x s) _ = _
  rw [h]
  rfl

/-- Whether a step of compilation fails only if a table is full. -/
def OnlyOverflows {α : Type} (x : M α) (s : State) : Prop :=
  ∀ e, x s = .error e → ∃ table, e.kind = .tableOverflow table

section

variable {α β : Type} {x : M α} {next : α → M β}

/-- Doing nothing never fails. -/
theorem onlyOverflows_pure (a : α) : OnlyOverflows (pure a) s := nofun

/-- A full table may be reported. -/
theorem onlyOverflows_overflow (table : String) :
    OnlyOverflows (fail c pos (.tableOverflow table) : M α) s := by
  rintro e ⟨⟩
  exact ⟨table, rfl⟩

/-- Steps in sequence only report full tables if each of them does. -/
theorem OnlyOverflows.bind (h : OnlyOverflows x s)
    (hnext : ∀ a s', x s = .ok (a, s') → OnlyOverflows (next a) s') : OnlyOverflows (x >>= next) s := by
  intro e herror
  cases hx : x s with
  | error e' =>
    rw [bind_of_eq_error hx] at herror
    cases herror
    exact h e hx
  | ok r =>
    rw [bind_of_eq_ok hx] at herror
    exact hnext r.1 r.2 hx e herror

end

/-- An entry that is added can only fail because its table is full. -/
theorem onlyOverflows_addEntry (table : String) (add : Tables → Option (Nat × Tables)) :
    OnlyOverflows (addEntry c pos table add) s := by
  unfold addEntry
  refine .bind nofun fun t s₁ ht => ?_
  split
  · exact .bind nofun fun _ _ _ => onlyOverflows_pure _
  · exact onlyOverflows_overflow table

/-- Pushing a value only needs room for it. -/
theorem onlyOverflows_pushValue (f : Fragment) (v : Value) : OnlyOverflows (pushValue c pos f v) s :=
  .bind (onlyOverflows_addEntry _ _) fun _ _ _ => onlyOverflows_pure _

/-- Pushing values only needs room for them. -/
theorem onlyOverflows_pushValues (f : Fragment) (values : List Value) :
    OnlyOverflows (pushValues c pos f values) s := by
  induction values generalizing f s with
  | nil => exact onlyOverflows_pure f
  | cons v values ih => exact .bind (onlyOverflows_pushValue f v) fun g s' _ => ih g

/-- Folding only needs room for the values, since code that cannot be evaluated is left as it is. -/
theorem onlyOverflows_fold (body : Fragment) : OnlyOverflows (fold c pos body) s := by
  unfold fold
  refine .bind nofun fun t s₁ ht => ?_
  simp only
  split
  · split
    · exact onlyOverflows_pushValues _ _
    · exact onlyOverflows_pure _
  · exact onlyOverflows_pure _

/-- Code that a `POP` balances is not refused for its balance. -/
theorem onlyOverflows_balanced (hstraight : Straight g.instrs) (hbalances : Balances pop g.instrs) :
    OnlyOverflows (balanced c pos g) s := by
  intro e herror
  unfold balanced at herror
  cases hbalance : g.balance with
  | ok b =>
    rw [hbalance] at herror
    cases herror
  | error kind =>
    rw [hbalance] at herror
    cases herror
    exact ⟨"pop", hbalances.balance_eq_error hstraight hbalance⟩

/-- What settles an action only needs room for its text if a `POP` balances its code. -/
theorem onlyOverflows_settle {t : Tables} (hstraight : Straight g.instrs)
    (hbalances : Balances pop g.instrs) : OnlyOverflows (settle c pos f g t) s := by
  unfold settle
  split
  · split
    · exact onlyOverflows_pure f
    · exact .bind (onlyOverflows_addEntry _ _) fun _ _ _ => onlyOverflows_pure _
  · exact .bind (onlyOverflows_balanced hstraight hbalances) fun _ _ _ => onlyOverflows_pure _

end Compile
end Stencil
