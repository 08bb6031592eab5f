import Stencil.Tree

/-!
# Building trees

Operands, pipelines and nodes from paths, names and constants. Everything built here is at
position zero until it is moved.
-/

namespace Stencil

/-- The names in a path, which are separated by points; empty names are left out. -/
def pathNames (path : List Char) : List String :=
  ((path.splitOn '.').filter (!·.isEmpty)).map String.ofList

namespace Variable

/-- The variable of a path such as `$x.A.B`. -/
def ofPath (path : String) : Variable where
  pos := 0
  path := String.ofList (path.toList.takeWhile (· != '.')) ::
    pathNames (path.toList.dropWhile (· != '.'))

end Variable

namespace Operand

/-- An integer constant. -/
def ofInt (i : Int64) : Operand :=
  .number ⟨0, toString i.toInt, some i, some (.ofInt64 i)⟩

/-- A number constant, written so that it reads as a number and not as an integer. -/
def ofFloat (x : Binary64) : Operand :=
  let plain := NumberStyle.plain.format x
  let marked := plain.toList.any fun c => c == '.' || c == 'e' || c == 'E'
  .number ⟨0, if marked then plain else plain ++ ".0", none, some x⟩

/-- The fields of the dot along a path such as `A.B`. -/
def ofField (path : String) : Operand := .field 0 (pathNames path.toList)

/-- The fields of an operand along a path. -/
def ofChain (operand : Operand) (path : String) : Operand :=
  .chain 0 operand (pathNames path.toList)

/-- A variable and its fields along a path such as `$x.A`. -/
def ofVariable (path : String) : Operand := .var (.ofPath path)

/-- The operand at another position. -/
def moveTo (pos : Pos) : Operand → Operand
  | bool _ b => .bool pos b
  | number n => .number ⟨pos, n.text, n.int, n.float⟩
  | string _ s => .string pos s
  | nil _ => .nil pos
  | dot _ => .dot pos
  | field _ path => .field pos path
  | chain _ operand path => .chain pos operand path
  | var v => .var ⟨pos, v.path⟩
  | ident _ name => .ident pos name
  | paren (.mk _ assign decl commands) => .paren (.mk pos assign decl commands)

end Operand

namespace Pipeline

/-- The pipeline of one command with one operand. -/
def ofOperand (operand : Operand) : Pipeline := .mk 0 false [] [.mk 0 [operand]]

/-- Declare variables with the result. -/
def declare (names : List String) : Pipeline → Pipeline
  | mk pos _ _ commands => .mk pos false (names.map .ofPath) commands

/-- Assign the result to a variable that exists. -/
def assignTo (name : String) : Pipeline → Pipeline
  | mk pos _ _ commands => .mk pos true [.ofPath name] commands

/-- The pipeline at another position. -/
def moveTo (pos : Pos) : Pipeline → Pipeline
  | mk _ assign decl commands => .mk pos assign decl commands

end Pipeline

namespace Node

/-- The node at another position. -/
def moveTo (pos : Pos) : Node → Node
  | list block => .list ⟨pos, block.nodes⟩
  | text _ s => .text pos s
  | action _ pipe => .action pos pipe
  | comment _ s => .comment pos s
  | branch kind _ pipe body orElse => .branch kind pos pipe body orElse
  | template _ name pipe => .template pos name pipe
  | breakLoop _ => .breakLoop pos
  | continueLoop _ => .continueLoop pos

end Node
end Stencil
