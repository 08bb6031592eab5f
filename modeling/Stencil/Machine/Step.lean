import Stencil.Call
import Stencil.Instr
import Stencil.Machine
import Stencil.Machine.Field
import Stencil.Value.Printing

/-!
# Steps

The effect of one instruction other than a template call. A step that fails leaves the machine as
far changed as it got: operands are popped before they are used.
-/

namespace Stencil

/-- The outcome of a step. -/
inductive Step where
  /-- Continue with the next instruction. -/
  | next (m : Machine)
  /-- Continue at a distance from the next instruction. -/
  | jump (distance : Int) (m : Machine)
  | fail (error : RuntimeError) (m : Machine)

namespace Machine

/-- A step that fails because the code is malformed. -/
def invalid (m : Machine) (reason : String) : Step := .fail (.invalidCode reason) m

/-- The error for a variable that has no binding. -/
def unbound (t : Tables) (name : Nat) : RuntimeError :=
  .undefinedVariable (t.strings[name]?.getD "")

/-- Pop the arguments of a call, the first of which is on top. -/
def popArgs? (m : Machine) (argc : Nat) : Option (List Value × Machine) :=
  if argc ≤ m.stack.length then
    some (m.stack.take argc, { m with stack := m.stack.drop argc })
  else none

/-- Push the result of an operation. -/
def pushResult (m : Machine) : Except RuntimeError Value → Step
  | .ok v => .next (m.push v)
  | .error e => .fail e m

/-- Write bytes to the sink. -/
def write (m : Machine) (bytes : ByteArray) : Step :=
  match m.sink.write bytes with
  | (sink, none) => .next { m with sink := sink }
  | (sink, some failure) => .fail (.write failure) { m with sink := sink }

/-- Write texts one after the other, up to the first one that does not fit. -/
def writeAll (m : Machine) : List String → Step
  | [] => .next m
  | s :: rest =>
    match m.write s.toUTF8 with
    | .next m => m.writeAll rest
    | failed => failed

/-- Write a value. -/
def print (schema : Schema) (m : Machine) (v : Value) : Step :=
  match v.written schema with
  | .error e => .fail e m
  | .ok pieces => m.writeAll pieces

/-- Writing texts one after the other is writing them at once. -/
theorem writeAll_eq_write (m : Machine) (pieces : List String) :
    m.writeAll pieces = m.write (String.join pieces).toUTF8 := by
  induction pieces generalizing m with
  | nil =>
    have hempty : (String.join []).toUTF8 = .empty := rfl
    rw [hempty, write, Sink.write_empty, writeAll]
  | cons s rest ih =>
    have hbytes : (String.join (s :: rest)).toUTF8 = s.toUTF8 ++ (String.join rest).toUTF8 := by
      rw [String.join_cons]
      exact String.toByteArray_append
    rw [hbytes, write, Sink.write_append, writeAll, write]
    cases m.sink.write s.toUTF8 with
    | mk sink failure =>
      cases failure with
      | none => exact ih { m with sink := sink }
      | some failure => rfl

/-- A value is written as its text is. -/
theorem print_eq (schema : Schema) (m : Machine) (v : Value) :
    m.print schema v =
      match v.printed schema with
      | .error e => .fail e m
      | .ok s => m.write s.toUTF8 := by
  rw [print, ← Value.map_join_written]
  cases v.written schema with
  | error => rfl
  | ok pieces => exact m.writeAll_eq_write pieces

/-- Look up a name on a value that has just been popped. -/
def fieldOf (schema : Schema) (m : Machine) (name : String) (argc : Nat) (v : Value) : Step :=
  match v with
  | .map .text entries => .next (m.push (Value.entryFor name entries).unboxed)
  | _ =>
    match v.method? schema name with
    | some (method, receiver) =>
      match m.popArgs? argc with
      | none => m.invalid "stack underflow"
      | some (args, m) => m.pushResult (Call.method method receiver args)
    | none =>
      match v.reach with
      | none => .next (m.push .nil)
      | some w => m.pushResult (w.plainField schema name)

/-- Execute one instruction. -/
def step (schema : Schema) (t : Tables) (m : Machine) : Instr → Step
  | .nop => .next m
  | .mark => .next { m with marks := m.stack.length :: m.marks }
  | .pop 0 =>
    match m.marks with
    | [] => m.invalid "pop without mark"
    | depth :: marks => .next { m with stack := keepBottom depth m.stack, marks := marks }
  | .pop (n + 1) =>
    if n + 1 ≤ m.stack.length then .next { m with stack := m.stack.drop (n + 1) }
    else m.invalid "stack underflow"
  | .field argc name =>
    match t.strings[name]? with
    | none => m.invalid "string index out of range"
    | some name =>
      match m.stack with
      | [] => m.invalid "stack underflow"
      | v :: stack => fieldOf schema { m with stack := stack } name argc v
  | .func argc index =>
    match t.funcs[index]? with
    | none => m.invalid "function index out of range"
    | some f =>
      match m.popArgs? argc with
      | none => m.invalid "stack underflow"
      | some (args, m) => m.pushResult (Call.function f args)
  | .var name =>
    match Bindings.get? name m.bindings with
    | none => .fail (unbound t name) m
    | some v => .next (m.push v)
  | .dot => .next (m.push m.dot)
  | .iter =>
    match m.stack with
    | [] => m.invalid "stack underflow"
    | v :: _ =>
      match Iteration.start v with
      | .error e => .fail e m
      | .ok it => .next { m with iterations := it :: m.iterations }
  | .next distance =>
    match m.iterations with
    | [] => m.invalid "no active iterator"
    | it :: rest =>
      match it.next? m.streams with
      | none => .jump distance { m with iterations := rest }
      | some ((position, v), it, streams) =>
        .next { m with
          stack := v :: position :: m.stack
          iterations := it :: rest
          streams := streams }
  | .jmp distance => .jump distance m
  | .jmpf distance => if m.stack.head?.any Value.isTrue then .next m else .jump distance m
  | .jmpt distance => if m.stack.head?.any Value.isTrue then .jump distance m else .next m
  | .setVar name assign =>
    match m.stack with
    | [] => m.invalid "stack underflow"
    | v :: stack =>
      let m := { m with stack := stack }
      if assign then
        match Bindings.assign? name v m.bindings with
        | none => .fail (unbound t name) m
        | some bindings => .next { m with bindings := bindings }
      else .next (m.bind name v)
  | .unsetVar name =>
    match Bindings.remove? name m.bindings with
    | none => .fail (unbound t name) m
    | some bindings => .next { m with bindings := bindings }
  | .print =>
    match m.stack with
    | [] => m.invalid "stack underflow"
    | v :: _ => m.print schema v
  | .pushDot =>
    match m.stack with
    | [] => m.invalid "stack underflow"
    | v :: _ => .next { m with dots := m.dot :: m.dots, dot := v }
  | .popDot =>
    match m.dots with
    | [] => m.invalid "no saved dot"
    | v :: dots => .next { m with dots := dots, dot := v }
  | .string index =>
    match t.texts[index]? with
    | none => m.invalid "string index out of range"
    | some s => .next (m.push (.str s))
  | .val index =>
    match t.values[index]? with
    | none => m.invalid "value index out of range"
    | some v => .next (m.push v)
  | .wb index =>
    match t.chunks[index]? with
    | none => m.invalid "bytes index out of range"
    | some bytes => m.write bytes
  | .template _ _ => m.invalid "template call outside a template"

end Machine
end Stencil
