import Stencil.Failure
import Stencil.Function
import Stencil.Schema

/-!
# Calls

How arguments reach a function or a method: their number is checked, each is coerced to its
declared type, and a variadic tail is packed into one sequence.
-/

namespace Stencil.Call

/-- Check the number of arguments. -/
def checkArity (name : String) (sig : Signature) (given : Nat) : Except RuntimeError Unit :=
  let fixed := sig.params.length
  let fits := if sig.variadic.isSome then fixed ≤ given else given = fixed
  if fits then .ok () else .error (.arityMismatch name fixed given sig.variadic.isSome)

/-- Convert an argument to something its declared type accepts. Nil becomes the zero value of the
type, one pointer or box is followed, and a pointer is taken to an addressable record. -/
def coerce? (ty : ParamType) (v : Value) : Option Value :=
  match v with
  | .nil | .nilBox => some ty.zero
  | _ =>
    if ty.accepts v then some v
    else
      match v.deref?.filter ty.accepts with
      | some w => some w
      | none => if v.isAddressable && ty.accepts (.ptr v) then some (.ptr v) else none

/-- Coerce the arguments from position `index` on. -/
def coerceArgs (name : String) (sig : Signature) (index : Nat) :
    List Value → Except RuntimeError (List Value)
  | [] => .ok []
  | v :: rest =>
    match sig.param? index with
    | none => (coerceArgs name sig (index + 1) rest).map (v :: ·)
    | some ty =>
      match coerce? ty v with
      | none => .error (.argumentMismatch name index ty.name v.typeName)
      | some w => (coerceArgs name sig (index + 1) rest).map (w :: ·)

/-- The arguments as a body gets them: those after the fixed ones are packed into a sequence. -/
def pack (sig : Signature) (args : List Value) : List Value :=
  if sig.variadic.isSome then
    args.take sig.params.length ++ [.seq (args.drop sig.params.length)]
  else args

/-- The result of a call, out of its box, or the error that reports its message. -/
def returned (name : String) : Except String Value → Except RuntimeError Value
  | .ok v => .ok v.unboxed
  | .error message => .error (.returnedError name message)

/-- Check and coerce the arguments of a call. -/
def prepare (name : String) (sig : Signature) (args : List Value) :
    Except RuntimeError (List Value) := do
  checkArity name sig args.length
  coerceArgs name sig 0 args

/-- Enter a function with coerced arguments, through its second entry point if it has an untyped
variadic tail. -/
def enter (f : Function) (args : List Value) : Except String Value :=
  match f.sig.variadic, f.fast with
  | some .any, some fast => fast (args.take f.sig.params.length) (args.drop f.sig.params.length)
  | _, _ => f.call (pack f.sig args)

/-- Call a function. -/
def function (f : Function) (args : List Value) : Except RuntimeError Value := do
  let args ← prepare f.name f.sig args
  returned f.name (enter f args)

/-- Call a method on a receiver. -/
def method (m : Method) (receiver : Value) (args : List Value) : Except RuntimeError Value := do
  let args ← prepare m.name m.sig args
  returned m.name (m.call receiver (pack m.sig args))

end Stencil.Call
