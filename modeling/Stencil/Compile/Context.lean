import Stencil.Compile.Error
import Stencil.Fragment.Balance
import Stencil.Options
import Stencil.Registry
import Stencil.Schema
import Stencil.Tables
import Stencil.TemplateSet

/-!
# Compilation context

What the compiler knows while it works on one template, what it keeps track of, and how it adds
entries to the tables of the program.
-/

namespace Stencil.Compile

/-- The inputs of compilation and the template being compiled. -/
structure Context where
  set : TemplateSet
  registry : Registry
  options : CompileOptions
  schema : Schema
  /-- The name of the template being compiled. -/
  name : String
  /-- The source text of the template being compiled. -/
  source : Option String

/-- What changes during compilation. -/
structure State where
  tables : Tables
  /-- An asset hook has been met, so the enclosing action must not print. -/
  noPrint : Bool
  /-- The variables declared so far in the innermost branch body, the last one first. -/
  declared : List Nat

/-- A step of compilation. -/
abbrev M := StateT State (Except CompileError)

/-- An error at a position of the current template. -/
def located (c : Context) (pos : Pos) (kind : CompileErrorKind) : CompileError :=
  ⟨kind, .ofOffset c.name pos c.source⟩

/-- Fail at a position of the current template. -/
def fail {α : Type} (c : Context) (pos : Pos) (kind : CompileErrorKind) : M α :=
  throw (located c pos kind)

/-- Add an entry to a table, or fail if the table is full. -/
def addEntry (c : Context) (pos : Pos) (table : String) (add : Tables → Option (Nat × Tables)) :
    M Nat := do
  let s ← get
  match add s.tables with
  | some (index, tables) =>
    set { s with tables := tables }
    return index
  | none => fail c pos (.tableOverflow table)

/-- The index of a string. -/
def intern (c : Context) (pos : Pos) (s : String) : M Nat :=
  addEntry c pos "string" (·.addString s)

/-- The index of a new value. -/
def addValue (c : Context) (pos : Pos) (v : Value) : M Nat :=
  addEntry c pos "value" (·.addValue v)

/-- Code that pushes a constant. -/
def pushValue (c : Context) (pos : Pos) (f : Fragment) (v : Value) : M Fragment := do
  return f.push (.val (← addValue c pos v))

/-- Code that writes a chunk of bytes. -/
def pushBytes (c : Context) (pos : Pos) (f : Fragment) (bytes : ByteArray) : M Fragment := do
  return f.push (.wb (← addEntry c pos "bytes" (·.addChunk bytes)))

/-- The fragment with a net effect of zero on the stack. -/
def balanced (c : Context) (pos : Pos) (f : Fragment) : M Fragment :=
  match f.balance with
  | .ok f => return f
  | .error kind => fail c pos kind

end Stencil.Compile
