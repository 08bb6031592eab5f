import Stencil.Iteration
import Stencil.Tables
import Stencil.Vars

/-!
# Machine states

The state of a render. All templates of a render run on one machine: they share its stacks, its
output and the streams, while each activation has a dot of its own. Stacks are lists whose head is
the top, and the innermost binding of a variable is the first one. The output goes to a sink, which
may accept only so many bytes: a write that does not fit is taken in part and fails, as does every
later write of at least one byte.
-/

namespace Stencil

/-- The bytes written so far and, for a bounded sink, how many more it takes and the failure it
reports after that. -/
structure Sink where
  written : ByteArray
  bound : Option (Nat × String)

namespace Sink

/-- A sink that takes everything. -/
def unlimited : Sink := ⟨.empty, none⟩

/-- A sink that takes `room` bytes and then fails. -/
def limited (room : Nat) (failure : String) : Sink := ⟨.empty, some (room, failure)⟩

/-- Write bytes. Answers the sink and the failure, if the bytes did not all fit. -/
def write (bytes : ByteArray) : Sink → Sink × Option String
  | ⟨written, none⟩ => (⟨written ++ bytes, none⟩, none)
  | ⟨written, some (room, failure)⟩ =>
    if bytes.size ≤ room then (⟨written ++ bytes, some (room - bytes.size, failure)⟩, none)
    else (⟨written ++ bytes.extract 0 room, some (0, failure)⟩, some failure)

/-- Of bytes that fit all are taken. -/
theorem extract_of_size_le {bytes : ByteArray} {room : Nat} (h : bytes.size ≤ room) :
    bytes.extract 0 room = bytes := by
  rw [← Nat.max_eq_left h]
  exact ByteArray.extract_zero_max_size

/-- A write of no bytes changes nothing. -/
theorem write_empty (s : Sink) : s.write .empty = (s, none) := by
  obtain ⟨written, _ | ⟨room, failure⟩⟩ := s
  · rw [write, ByteArray.append_empty]
  · rw [write, ByteArray.size_empty, if_pos (Nat.zero_le room), ByteArray.append_empty, Nat.sub_zero]

/-- Two writes one after the other are one write, unless the first one does not fit. -/
theorem write_append (s : Sink) (bytes more : ByteArray) :
    s.write (bytes ++ more) =
      match s.write bytes with
      | (s, none) => s.write more
      | (s, some failure) => (s, some failure) := by
  obtain ⟨written, _ | ⟨room, failure⟩⟩ := s
  · simp only [write, ByteArray.append_assoc]
  · by_cases hfirst : bytes.size ≤ room
    · by_cases hboth : bytes.size + more.size ≤ room
      · have hmore : more.size ≤ room - bytes.size := by omega
        simp only [write, ByteArray.size_append, if_pos hboth, if_pos hfirst, if_pos hmore,
          ByteArray.append_assoc, Nat.sub_sub]
      · have hmore : ¬more.size ≤ room - bytes.size := by omega
        simp only [write, ByteArray.size_append, if_neg hboth, if_pos hfirst, if_neg hmore,
          ByteArray.extract_append, extract_of_size_le hfirst, Nat.zero_sub, ByteArray.append_assoc]
    · have hfull : room - bytes.size = 0 := by omega
      have hboth : ¬bytes.size + more.size ≤ room := by omega
      simp only [write, ByteArray.size_append, if_neg hboth, if_neg hfirst, ByteArray.extract_append,
        hfull, Nat.zero_sub, ByteArray.extract_same, ByteArray.append_empty]

end Sink
/-- The stacks of a machine. -/
structure Stacks where
  stack : List Value
  /-- Remembered depths of the stack. -/
  marks : List Nat
  /-- Variables by the index of their name. -/
  bindings : List (Nat × Value)
  dots : List Value
  iterations : List Iteration
deriving Inhabited

namespace Stacks

/-- Empty stacks. -/
def empty : Stacks := ⟨[], [], [], [], []⟩

end Stacks

/-- A machine: its stacks, the dot of the running activation, the output and the streams. -/
structure Machine extends Stacks where
  dot : Value
  sink : Sink
  streams : Streams

namespace Machine

/-- A machine with empty stacks. -/
def fresh (sink : Sink) (streams : Streams) : Machine :=
  { Stacks.empty with dot := .nil, sink := sink, streams := streams }

/-- The machine with its stacks emptied. -/
def reset (m : Machine) : Machine := { m with toStacks := .empty }

/-- Push a value. -/
def push (m : Machine) (v : Value) : Machine := { m with stack := v :: m.stack }

/-- Make a new binding. -/
def bind (m : Machine) (name : Nat) (v : Value) : Machine :=
  { m with bindings := (name, v) :: m.bindings }

end Machine

/-- The bottom `n` elements of a stack. -/
def keepBottom {α : Type} (n : Nat) (stack : List α) : List α := stack.drop (stack.length - n)

/-- What lies at the bottom is left when as much as was there is kept. -/
@[simp]
theorem keepBottom_append {α : Type} (top stack : List α) :
    keepBottom stack.length (top ++ stack) = stack := by
  simp [keepBottom]

namespace Bindings

/-- The value of the innermost binding of a variable. -/
def get? (name : Nat) (bindings : List (Nat × Value)) : Option Value :=
  (bindings.find? (·.1 == name)).map (·.2)

/-- A binding that has just been made is found. -/
@[simp]
theorem get?_cons_self (name : Nat) (v : Value) (bindings : List (Nat × Value)) :
    get? name ((name, v) :: bindings) = some v := by
  simp [get?]

/-- Replace the value of the innermost binding of a variable. -/
def assign? (name : Nat) (v : Value) : List (Nat × Value) → Option (List (Nat × Value))
  | [] => none
  | b :: rest =>
    if b.1 = name then some ((name, v) :: rest) else (assign? name v rest).map (b :: ·)

/-- Remove the innermost binding of a variable. -/
def remove? (name : Nat) : List (Nat × Value) → Option (List (Nat × Value))
  | [] => none
  | b :: rest => if b.1 = name then some rest else (remove? name rest).map (b :: ·)

/-- A binding that has just been made can be taken back. -/
@[simp]
theorem remove?_cons_self (name : Nat) (v : Value) (bindings : List (Nat × Value)) :
    remove? name ((name, v) :: bindings) = some bindings := by
  simp [remove?]

end Bindings
end Stencil
