/-!
# Instructions

The instructions of the stack machine. A jump at offset `pc` over a distance `k` continues at
`pc + k + 1`; all other operands are counts or indices into the tables of a program.
-/

namespace Stencil

/-- An instruction. -/
inductive Instr where
  | nop
  /-- Look up a name on the top of the stack; a method found there takes `argc` arguments. -/
  | field (argc name : Nat)
  /-- Call a function with `argc` arguments. -/
  | func (argc index : Nat)
  /-- Start iterating over the top of the stack, which stays there. -/
  | iter
  | jmp (distance : Int)
  /-- Jump if the top of the stack is false, which stays there. -/
  | jmpf (distance : Int)
  /-- Jump if the top of the stack is true, which stays there. -/
  | jmpt (distance : Int)
  /-- Remember the depth of the stack. -/
  | mark
  /-- Push position and element, or drop the finished iterator and jump. -/
  | next (distance : Int)
  | dot
  /-- Print the top of the stack, which stays there. -/
  | print
  | pushDot
  | popDot
  /-- Pop `count` values; none stands for all values above the last mark. -/
  | pop (count : Nat)
  /-- Pop into a variable: an assignment overwrites the innermost binding, otherwise a new one is
  made. -/
  | setVar (name : Nat) (assign : Bool)
  | string (index : Nat)
  /-- Run a template with the top of the stack as its dot. -/
  | template (ns name : Nat)
  | unsetVar (name : Nat)
  | val (index : Nat)
  | var (name : Nat)
  /-- Write a chunk of bytes. -/
  | wb (index : Nat)
deriving DecidableEq, Inhabited

namespace Instr

/-- The name of the operation. -/
def mnemonic : Instr → String
  | nop => "NOP"
  | field .. => "FIELD"
  | func .. => "FUNC"
  | iter => "ITER"
  | jmp _ => "JMP"
  | jmpf _ => "JMPF"
  | jmpt _ => "JMPT"
  | mark => "MARK"
  | next _ => "NEXT"
  | dot => "DOT"
  | print => "PRINT"
  | pushDot => "PUSHDOT"
  | popDot => "POPDOT"
  | pop _ => "POP"
  | setVar .. => "SETVAR"
  | string _ => "STRING"
  | template .. => "TEMPLATE"
  | unsetVar _ => "UNSETVAR"
  | val _ => "VAL"
  | var _ => "VAR"
  | wb _ => "WB"

/-- The distance of a jump. -/
def distance? : Instr → Option Int
  | jmp k | jmpf k | jmpt k | next k => some k
  | _ => none

/-- The same instruction over another distance; only jumps change. -/
def withDistance (k : Int) : Instr → Instr
  | jmp _ => jmp k
  | jmpf _ => jmpf k
  | jmpt _ => jmpt k
  | next _ => next k
  | i => i

/-- A jump that is given the distance that it has stays as it is. -/
theorem withDistance_of_distance? {i : Instr} {k : Int} (h : i.distance? = some k) :
    i.withDistance k = i := by
  cases i <;> simp_all [distance?, withDistance]

/-- A distance with its sign. -/
def signed (k : Int) : String := (if k < 0 then "" else "+") ++ toString k

/-- The text of an instruction: its name and its operands. -/
def display (i : Instr) : String :=
  match i with
  | field argc name => i.mnemonic ++ " " ++ toString name ++ " argc=" ++ toString argc
  | func argc index => i.mnemonic ++ " " ++ toString index ++ " argc=" ++ toString argc
  | jmp k | jmpf k | jmpt k | next k => i.mnemonic ++ " " ++ signed k
  | setVar name assign => i.mnemonic ++ " " ++ toString name ++ (if assign then " assign" else "")
  | template ns name => i.mnemonic ++ " " ++ toString ns ++ ":" ++ toString name
  | pop n | string n | unsetVar n | val n | var n | wb n => i.mnemonic ++ " " ++ toString n
  | _ => i.mnemonic

end Instr
end Stencil
