import Stencil.Fragment
import Stencil.Schema
import Stencil.Tables

/-!
# Programs

The compiled form of a template set: the code of every template and the tables it refers to.
-/

namespace Stencil

/-- A compiled template. -/
structure CompiledTemplate where
  code : Array Instr
  marks : Array Mark
  source : Option String
deriving Inhabited

namespace CompiledTemplate

/-- The place of an instruction of the template of the given name. -/
def locate (t : CompiledTemplate) (name : String) (pc : Nat) : Option Location :=
  (Fragment.positionOf t.marks pc).map fun pos => .ofOffset name pos t.source

end CompiledTemplate

/-- A compiled template set. -/
structure Program where
  schema : Schema
  tables : Tables
  templates : Std.TreeMap String CompiledTemplate
  /-- The template rendered when no other is asked for. -/
  root : String

namespace Program

/-- The names of the templates, in order. -/
def templateNames (p : Program) : List String := p.templates.keys

/-- Whether there is a template of the given name. -/
def hasTemplate (p : Program) (name : String) : Bool := p.templates.contains name

/-- The diagnostic form of a program: its templates and the sizes of its tables. -/
def debug (p : Program) : String :=
  "Program \x7b root: " ++ Text.quoted p.root ++
    ", templates: [" ++ ", ".intercalate (p.templateNames.map Text.quoted) ++
    "], strings: " ++ toString p.tables.strings.size ++
    ", values: " ++ toString p.tables.values.size ++
    ", funcs: " ++ toString p.tables.funcs.size ++ " \x7d"

end Program
end Stencil
