import Stencil.Signature
import Stencil.Text.Quoted

/-!
# Functions

Functions that templates can call. A body gets the coerced arguments, with the variadic ones packed
into one trailing sequence, and answers a value or a message. A function with an untyped variadic
tail may have a second entry point that gets the two groups of arguments apart.
-/

namespace Stencil

/-- A function of the host or of the library. -/
structure Function where
  name : String
  sig : Signature
  /-- Whether calls on constants may be evaluated when a template is compiled. -/
  pure : Bool
  call : List Value → Except String Value
  fast : Option (List Value → List Value → Except String Value)

namespace Function

/-- A pure function whose arguments form a variadic tail after `params`. -/
def variadic (name : String) (params : List ParamType) (returns : ParamType)
    (body : List Value → List Value → Except String Value) : Function where
  name := name
  sig := ⟨params, some .any, returns⟩
  pure := true
  call args :=
    let tail := ((args.drop params.length).getLast?.bind Value.seq?).getD []
    body (args.take params.length) tail
  fast := some body

/-- A pure function of one argument, nil if it is missing. -/
def unary (name : String) (param returns : ParamType)
    (body : Value → Except String Value) : Function where
  name := name
  sig := ⟨[param], none, returns⟩
  pure := true
  call args := body (args.head?.getD .nil)
  fast := none

/-- The diagnostic form of a function. -/
def debug (f : Function) : String :=
  "Function \x7b name: " ++ Text.quoted f.name ++ ", sig: " ++ f.sig.debug ++
    ", pure: " ++ toString f.pure ++ ", fast: " ++ toString f.fast.isSome ++ " \x7d"

end Function
end Stencil
