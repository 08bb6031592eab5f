import Stencil.Builtin.Escape
import Stencil.Builtin.Format
import Stencil.Registry
import Stencil.Text.Case

/-!
# Built-in functions

The functions every engine starts with: the escapers and small helpers for text. All of them are
pure.
-/

namespace Stencil.Builtin

/-- Equality across content types and, by value, across integers and numbers. -/
def sameOperand : Value → Value → Bool
  | .int i, .float x => (Binary64.ofInt64 i).same x
  | .float x, .int i => (Binary64.ofInt64 i).same x
  | .text _ a, .text _ b => a == b
  | a, b => a.same b

/-- Whether the first operand equals any of the others. -/
def equalsAny (first : Option Value) (others : List Value) : Except String Value :=
  match first, others with
  | some v, _ :: _ => .ok (.bool (others.any fun w => sameOperand v.unboxed w.unboxed))
  | _, _ => .error "missing argument for comparison"

/-- The size of a text, a sequence or a map. -/
def len (v : Value) : Except String Value :=
  match v.unboxed.size? with
  | some n => .ok (.int (Int64.ofNat n))
  | none => .error ("len of type " ++ v.unboxed.typeName)

/-- The helpers for text. -/
def textFunctions (schema : Schema) : List Function := [
  .variadic "print" [] (.text .plain) fun _ tail => .ok (.str (Value.sprint schema tail)),
  .variadic "printf" [.text .plain] (.text .plain) fun fixed tail =>
    .ok (.str (sprintf schema ((fixed.head?.bind Value.text?).getD "") tail)),
  .unary "len" .any .int len,
  .unary "not" .any .bool fun v => .ok (.bool !v.isTrue),
  .variadic "eq" [.any] .bool fun fixed tail => equalsAny fixed.head? tail,
  .unary "lower" (.text .plain) (.text .plain) fun v =>
    .ok (.str (Text.lower (v.text?.getD ""))),
  .unary "upper" (.text .plain) (.text .plain) fun v =>
    .ok (.str (Text.upper (v.text?.getD "")))]

/-- All built-in functions. -/
def all (schema : Schema) : List Function := escapers schema ++ textFunctions schema

end Stencil.Builtin

namespace Stencil.Registry

/-- Register the built-in functions, replacing pure functions of the same names. -/
def withBuiltins (r : Registry) (schema : Schema) : Registry := r.insertMany (Builtin.all schema)

end Stencil.Registry
