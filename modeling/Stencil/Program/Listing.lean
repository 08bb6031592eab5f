import Stencil.Program
import Stencil.Text.Utf8
import Stencil.Value.Text

/-!
# Listings

The code of a template in readable form, one instruction a line, with what its operands refer to.
-/

namespace Stencil.Program

/-- What the operands of an instruction refer to. -/
def annotation (p : Program) : Instr → Option String
  | .field _ name | .setVar name _ | .string name | .unsetVar name | .var name =>
    p.tables.strings[name]?.map Text.quoted
  | .func _ index => p.tables.funcs[index]?.map (·.name)
  | .val index => p.tables.values[index]?.map Value.debug
  | .wb index => p.tables.chunks[index]?.map fun bytes => Text.quoted (Text.ofBytesLossy bytes)
  | .template ns name => do
    let ns ← p.tables.strings[ns]?
    let name ← p.tables.strings[name]?
    return Text.quoted ns ++ " " ++ Text.quoted name
  | _ => none

/-- A number with at least four digits. -/
def fourDigits (n : Nat) : String :=
  let digits := Nat.toDigits 10 n
  String.ofList (List.replicate (4 - digits.length) '0' ++ digits)

/-- The line of an instruction. -/
def listingLine (p : Program) (pc : Nat) (i : Instr) : String :=
  let note := match p.annotation i with
    | some text => " ; " ++ text
    | none => ""
  fourDigits pc ++ " " ++ i.display ++ note ++ "\n"

/-- The listing of code whose first instruction has the given offset. -/
def listingFrom (p : Program) : Nat → List Instr → String
  | _, [] => ""
  | pc, i :: rest => p.listingLine pc i ++ listingFrom p (pc + 1) rest

/-- The listing of a template. -/
def listing? (p : Program) (name : String) : Option String :=
  p.templates[name]?.map fun t => p.listingFrom 0 t.code.toList

end Stencil.Program
