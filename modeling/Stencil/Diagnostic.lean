import Stencil.Compile.Error
import Stencil.Failure

/-!
# Errors and diagnostics

The errors an engine reports, each with the source text of the template it points into as far as
that is known, and the uniform view of them that reports are made from.
-/

namespace Stencil

/-- An error of an engine. -/
inductive EngineError where
  /-- The engine has been asked for something that does not exist. -/
  | misuse (message : String)
  | compilation (error : CompileError) (source : Option String)
  | runtime (error : ExecutionError) (source : Option String)
deriving Inhabited

/-- How severe a diagnostic is. -/
inductive Severity where
  | error
  | warning
  | info
deriving DecidableEq, Inhabited

namespace Severity

/-- The name of a severity. -/
def name : Severity → String
  | error => "error"
  | warning => "warning"
  | info => "info"

end Severity

/-- A message, the place it is about, and advice. -/
structure Diagnostic where
  severity : Severity
  message : String
  location : Option Location
  help : List String
deriving Inhabited

namespace CompileErrorKind

/-- Advice on a compilation error. -/
def help : CompileErrorKind → List String
  | undefinedFunction name => ["register `" ++ name ++ "` in the engine's function map"]
  | unbalanced _ => ["this is a compiler bug, please report it"]
  | _ => []

end CompileErrorKind

namespace RuntimeError

/-- Advice on a runtime error. -/
def help : RuntimeError → List String
  | requiresPointerReceiver _ ty => ["pass a pointer to the " ++ ty ++ " instead of a copy"]
  | _ => []

end RuntimeError

namespace EngineError

/-- The place an error is about. -/
def location? : EngineError → Option Location
  | misuse _ => none
  | compilation e _ => some e.location
  | runtime e _ => e.location

/-- The source text of the template an error points into. -/
def source? : EngineError → Option String
  | misuse _ => none
  | compilation _ source | runtime _ source => source

/-- The text of the error behind an error of the engine. -/
def cause? : EngineError → Option String
  | misuse _ => none
  | compilation e _ => some e.display
  | runtime e _ => some e.display

/-- The text of an error. -/
def display : EngineError → String
  | misuse message => "API error: " ++ message
  | compilation e _ => "Compilation error: " ++ e.display
  | runtime e _ => "Runtime error: " ++ e.display

/-- The diagnostic of an error. -/
def diagnostic : EngineError → Diagnostic
  | misuse message => ⟨.error, message, none, []⟩
  | compilation e _ => ⟨.error, e.kind.message, some e.location, e.kind.help⟩
  | runtime e _ => ⟨.error, e.kind.message, e.location, e.kind.help⟩

end EngineError
end Stencil
