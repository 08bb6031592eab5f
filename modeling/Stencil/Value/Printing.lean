import Stencil.Failure
import Stencil.Value.Text

/-!
# Printing

What a template writes for a value. Nil and nil boxes write nothing, functions and streams cannot
be printed, and pointers and boxes are followed, except that a pointer to a record keeps its own
form.
-/

namespace Stencil.Value

/-- The text written for a value. -/
def printed (schema : Schema) : Value → Except RuntimeError String
  | text _ s => .ok s
  | nil | nilBox => .ok ""
  | ptr v =>
    match v with
    | record .. => .ok (display schema (ptr v))
    | _ => printed schema v
  | box v => printed schema v
  | func _ _ => .error (.notPrintable "func")
  | stream _ => .error (.notPrintable "stream")
  | v => .ok (display schema v)

/-- The pieces in which a template writes a value, one after the other. -/
def written (schema : Schema) : Value → Except RuntimeError (List String)
  | text _ s => .ok [s]
  | nil | nilBox => .ok []
  | ptr v =>
    match v with
    | record .. => .ok (pieces schema (ptr v))
    | _ => written schema v
  | box v => written schema v
  | func _ _ => .error (.notPrintable "func")
  | stream _ => .error (.notPrintable "stream")
  | v => .ok (pieces schema v)

/-- The pieces make up the text that is written. -/
theorem map_join_written (schema : Schema) : ∀ v : Value,
    (v.written schema).map String.join = v.printed schema
  | text .. => by simp [written, printed, Except.map]
  | nil | nilBox | func .. | stream _ => rfl
  | ptr v => by
    have htarget := map_join_written schema v
    cases v with
    | record => exact congrArg Except.ok (join_pieces schema _)
    | _ => simpa only [written, printed] using htarget
  | box v => by simpa only [written, printed] using map_join_written schema v
  | bool _ | int _ | float _ | seq _ | map .. | record .. | nilPtr =>
    congrArg Except.ok (join_pieces schema _)

/-- Whether a space separates two operands printed one after the other: only if neither is a
text. -/
def spaced (a b : Value) : Bool := !a.isText && !b.isText

/-- Put the texts of operands together, each with the operand before it, if any. -/
def joinOperands (before : Option Value) : List (Value × String) → String
  | [] => ""
  | (v, s) :: rest =>
    (if before.any (spaced · v) then " " else "") ++ s ++ joinOperands (some v) rest

/-- The printed forms of operands, with spaces between operands that are not text. -/
def sprint (schema : Schema) (args : List Value) : String :=
  joinOperands none (args.map fun v => (v, v.display schema))

/-- What a template writes for operands one after the other, with spaces between operands that are
not text. -/
def printedAll (schema : Schema) (args : List Value) : Except RuntimeError String := do
  let texts ← args.mapM fun v => do return (v, ← v.printed schema)
  return joinOperands none texts

end Stencil.Value
