import Stencil.Decimal.Notation
import Stencil.Location

/-!
# Template trees

The parsed form of a template. Every node knows its position in the source text. A pipeline passes
the result of each command to the next one as its last argument and may declare or assign
variables.
-/

namespace Stencil

/-- A variable with a field path; the first name keeps its `$`, and `$` alone is the root data. -/
structure Variable where
  pos : Pos
  path : List String
deriving DecidableEq, Inhabited

/-- A number constant: its text and the values that the text stands for. -/
structure Number where
  pos : Pos
  text : String
  int : Option Int64
  float : Option Binary64
deriving DecidableEq, Inhabited

mutual

/-- An operand of a command. -/
inductive Operand where
  | bool (pos : Pos) (b : Bool)
  | number (n : Number)
  | string (pos : Pos) (s : String)
  | nil (pos : Pos)
  | dot (pos : Pos)
  | field (pos : Pos) (path : List String)
  /-- Fields of the value of another operand. -/
  | chain (pos : Pos) (operand : Operand) (path : List String)
  | var (v : Variable)
  /-- The name of a function. -/
  | ident (pos : Pos) (name : String)
  /-- A pipeline in parentheses. -/
  | paren (p : Pipeline)

/-- A command: its first operand is called with the others, if it can be called. -/
inductive Command where
  | mk (pos : Pos) (operands : List Operand)

/-- Commands in sequence, whose result may be bound to variables. -/
inductive Pipeline where
  | mk (pos : Pos) (assign : Bool) (decl : List Variable) (commands : List Command)

end

instance : Inhabited Operand := ⟨.nil 0⟩

instance : Inhabited Command := ⟨.mk 0 []⟩

instance : Inhabited Pipeline := ⟨.mk 0 false [] []⟩

/-- The kinds of branching nodes. -/
inductive BranchKind where
  | ifThen
  | withDot
  | range
deriving DecidableEq, Inhabited

/-- A list of nodes with a position of its own. -/
structure Block (α : Type) where
  pos : Pos
  nodes : List α
deriving Inhabited

/-- A statement of a template. -/
inductive Node where
  | list (block : Block Node)
  | text (pos : Pos) (s : String)
  | action (pos : Pos) (pipe : Pipeline)
  | comment (pos : Pos) (s : String)
  | branch (kind : BranchKind) (pos : Pos) (pipe : Pipeline) (body : Block Node)
      (orElse : Option (Block Node))
  | template (pos : Pos) (name : String) (pipe : Option Pipeline)
  | breakLoop (pos : Pos)
  | continueLoop (pos : Pos)
deriving Inhabited

/-- A named template and its source text, if that is known. -/
structure Tree where
  name : String
  root : Block Node
  source : Option String
deriving Inhabited

namespace Command

/-- The position of a command. -/
def pos : Command → Pos
  | mk pos _ => pos

/-- The operands of a command. -/
def operands : Command → List Operand
  | mk _ operands => operands

end Command

namespace Pipeline

/-- The position of a pipeline. -/
def pos : Pipeline → Pos
  | mk pos .. => pos

/-- Whether the variables of a pipeline are assigned rather than declared. -/
def assign : Pipeline → Bool
  | mk _ assign .. => assign

/-- The variables that a pipeline declares or assigns. -/
def decl : Pipeline → List Variable
  | mk _ _ decl _ => decl

/-- The commands of a pipeline. -/
def commands : Pipeline → List Command
  | mk _ _ _ commands => commands

end Pipeline

namespace Variable

/-- The name of the variable without its `$`, empty for the root data. -/
def name (v : Variable) : String :=
  match v.path with
  | [] => ""
  | head :: _ =>
    match head.toList with
    | '$' :: rest => String.ofList rest
    | _ => head

/-- The fields that follow the variable. -/
def fields (v : Variable) : List String := v.path.drop 1

end Variable

namespace Operand

/-- The position of an operand. -/
def pos : Operand → Pos
  | bool pos _ | string pos _ | nil pos | dot pos | field pos _ | chain pos _ _ | ident pos _ => pos
  | number n => n.pos
  | var v => v.pos
  | paren p => p.pos

end Operand

namespace Node

/-- The position of a node. -/
def pos : Node → Pos
  | list block => block.pos
  | text pos _ | action pos _ | comment pos _ | branch _ pos .. | template pos .. | breakLoop pos
  | continueLoop pos => pos

end Node
end Stencil
