import Stencil.Location
import Stencil.Text.Quoted

/-!
# Runtime failures

Why a render can fail, and where. The place is known as soon as the failure leaves the template in
which it arose.
-/

namespace Stencil

/-- Why running compiled code failed. -/
inductive RuntimeError where
  | undefinedVariable (name : String)
  | fieldNotFound (name typeName : String)
  | notEvaluable (name typeName : String)
  | requiresPointerReceiver (name typeName : String)
  | arityMismatch (name : String) (expected given : Nat) (variadic : Bool)
  | argumentMismatch (name : String) (index : Nat) (expected found : String)
  | returnedError (name message : String)
  | notIterable (typeName : String)
  | notPrintable (typeName : String)
  | invalidCode (reason : String)
  | undefinedTemplate (name : String)
  | write (reason : String)
deriving DecidableEq, Inhabited

namespace RuntimeError

/-- The text of a runtime error. -/
def message : RuntimeError → String
  | undefinedVariable name => "undefined variable: \"$" ++ name ++ "\""
  | fieldNotFound name ty => Text.quoted name ++ " is not a field of struct type " ++ ty
  | notEvaluable name ty => "can't evaluate field " ++ Text.quoted name ++ " on type " ++ ty
  | requiresPointerReceiver name ty =>
    "method " ++ Text.quoted name ++ " requires pointer receiver (*" ++ ty ++ ")"
  | arityMismatch name expected given variadic =>
    "function " ++ Text.quoted name ++ " requires " ++
      (if variadic then "at least" else "exactly") ++ " " ++ toString expected ++
      " arguments, " ++ toString given ++ " given"
  | argumentMismatch name index expected found =>
    "can't call " ++ Text.quoted name ++ " with " ++ found ++ " as argument " ++
      toString index ++ ", need " ++ expected
  | returnedError name msg => Text.quoted name ++ " returned an error: " ++ msg
  | notIterable ty => "can't range over " ++ ty
  | notPrintable ty => "can't print value of type " ++ ty
  | invalidCode reason => "invalid bytecode: " ++ reason
  | undefinedTemplate name => "undefined template " ++ Text.quoted name
  | write reason => reason

end RuntimeError

/-- A runtime error together with the place it arose at, if that is known. -/
structure ExecutionError where
  kind : RuntimeError
  location : Option Location
deriving DecidableEq, Inhabited

namespace ExecutionError

/-- Add a place to an error that has none. -/
def orLocate (e : ExecutionError) (location : Option Location) : ExecutionError :=
  ⟨e.kind, e.location.or location⟩

/-- The text of an execution error. -/
def display (e : ExecutionError) : String :=
  match e.location with
  | some loc => loc.display ++ ": " ++ e.kind.message
  | none => e.kind.message

end ExecutionError
end Stencil
