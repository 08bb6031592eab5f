import Stencil.Failure
import Stencil.Value

/-!
# Iteration

What a range loop runs over. A sequence yields its indices and elements, a map its keys and values
in key order, a stream counts the elements it delivers. A record in a sequence can be addressed
while the loop is at it.
-/

namespace Stencil

/-- The elements that streams have yet to deliver, by the number of the stream. -/
structure Streams where
  queues : List (List Value)
deriving Inhabited

namespace Streams

/-- No streams. -/
def none : Streams := ⟨[]⟩

/-- The next element of a stream. -/
def receive? (streams : Streams) (id : Nat) : Option (Value × Streams) :=
  match streams.queues[id]? with
  | some (v :: rest) => some (v, ⟨streams.queues.set id rest⟩)
  | _ => .none

end Streams

/-- An iterator: the positions and elements still to come, or a stream and its count so far. -/
inductive Iteration where
  | entries (rest : List (Value × Value))
  | stream (id : Nat) (count : Nat)
deriving Inhabited

namespace Iteration

/-- An integer position. -/
def position (n : Nat) : Value := .int (Int64.ofNat n)

/-- The positions and elements of a sequence from a given position on. -/
def seqEntries : Nat → List Value → List (Value × Value)
  | _, [] => []
  | n, v :: rest => (position n, v.addressed.unboxed) :: seqEntries (n + 1) rest

/-- Start iterating over a value; pointers and boxes are followed. -/
def start : Value → Except RuntimeError Iteration
  | .nil | .nilPtr | .nilBox => .ok (.entries [])
  | .ptr v | .box v => start v
  | .seq items => .ok (.entries (seqEntries 0 items))
  | .map _ es => .ok (.entries (es.map fun e => (e.1.toValue, e.2.unboxed)))
  | .stream id => .ok (.stream id 0)
  | v => .error (.notIterable v.typeName)

/-- The next position and element, or nothing when the iteration is over. -/
def next? (it : Iteration) (streams : Streams) :
    Option ((Value × Value) × Iteration × Streams) :=
  match it with
  | entries [] => none
  | entries (e :: rest) => some (e, entries rest, streams)
  | stream id count =>
    (streams.receive? id).map fun (v, streams) =>
      ((position count, v.unboxed), stream id (count + 1), streams)

end Iteration
end Stencil
