import Stencil.Value

/-!
# Signatures

The declared types of parameters and results. A parameter type says which values may be passed as
they are and which value stands in for a missing one.
-/

namespace Stencil

/-- The declared type of a parameter or a result. -/
inductive ParamType where
  | any
  | bool
  | int
  | float
  | text (kind : TextKind)
  | seq
  | map
  | record (ty : RecordType)
  | ptr (ty : RecordType)
  | stream
  | func
deriving DecidableEq, Inhabited

namespace ParamType

/-- Whether a value can be passed as it is. -/
def accepts : ParamType → Value → Bool
  | any, _ => true
  | bool, .bool _ => true
  | int, .int _ => true
  | float, .float _ => true
  | text j, .text k _ => j == k
  | seq, .seq _ => true
  | map, .map _ _ => true
  | record s, .record t _ _ => s == t
  | ptr _, .nilPtr => true
  | ptr s, .ptr (.record t _ _) => s == t
  | stream, .stream _ => true
  | func, .func _ _ => true
  | _, _ => false

/-- The value passed for a nil argument. Streams and functions have none and receive nil. -/
def zero : ParamType → Value
  | any | stream | func => .nil
  | bool => .bool false
  | int => .int 0
  | float => .float .zero
  | text kind => .text kind ""
  | seq => .seq []
  | map => .emptyMap .text
  | record ty => .recordOf ty []
  | ptr _ => .nilPtr

/-- The stand-in is accepted, except that nil is no stream and no function. -/
theorem accepts_zero {ty : ParamType} (hs : ty ≠ stream) (hf : ty ≠ func) :
    ty.accepts ty.zero = true := by
  cases ty <;> simp_all [accepts, zero, Value.recordOf]

/-- The name of the type. -/
def name : ParamType → String
  | any => "any"
  | bool => "bool"
  | int => "int"
  | float => "float"
  | text .plain => "string"
  | text .html => "html"
  | text .js => "js"
  | seq => "seq"
  | map => "map"
  | record ty => ty.name
  | ptr ty => "*" ++ ty.name
  | stream => "stream"
  | func => "func"

end ParamType

/-- The fixed parameters of a callable, the type of its variadic tail and that of its result. -/
structure Signature where
  params : List ParamType
  variadic : Option ParamType
  returns : ParamType
deriving Inhabited

namespace Signature

/-- The declared type of the argument at `index`. -/
def param? (sig : Signature) (index : Nat) : Option ParamType :=
  sig.params[index]?.or sig.variadic

/-- The diagnostic form of a signature. -/
def debug (sig : Signature) : String :=
  let variadic := match sig.variadic with
    | some ty => "Some(" ++ ty.name ++ ")"
    | none => "None"
  "Signature \x7b params: [" ++ ", ".intercalate (sig.params.map ParamType.name) ++
    "], variadic: " ++ variadic ++ ", returns: " ++ sig.returns.name ++ " \x7d"

end Signature
end Stencil
