import Stencil.Location
import Stencil.Text.Quoted

/-!
# Compilation failures

Why a template set can be refused, and where.
-/

namespace Stencil

/-- Why compilation failed. -/
inductive CompileErrorKind where
  | undefinedFunction (name : String)
  | undefinedTemplate (name : String)
  | unsupportedNode (node : String)
  | invalidNumber (text : String)
  /-- The compiled code would pop more values than it pushes, by this net effect. -/
  | unbalanced (effect : Int)
  | tableOverflow (table : String)
deriving DecidableEq, Inhabited

namespace CompileErrorKind

/-- The text of a compilation error. -/
def message : CompileErrorKind → String
  | undefinedFunction name => "undefined function " ++ Text.quoted name
  | undefinedTemplate name => "no such template " ++ Text.quoted name
  | unsupportedNode node => "can't compile node " ++ node
  | invalidNumber text => "invalid number node " ++ Text.quoted text
  | unbalanced effect => "can't pop more than was pushed (" ++ toString effect ++ ")"
  | tableOverflow table => "too many entries in the " ++ table ++ " table"

end CompileErrorKind

/-- A compilation error and the place of the node that caused it. -/
structure CompileError where
  kind : CompileErrorKind
  location : Location
deriving DecidableEq, Inhabited

namespace CompileError

/-- The text of a located compilation error. -/
def display (e : CompileError) : String := e.location.display ++ ": " ++ e.kind.message

end CompileError
end Stencil
