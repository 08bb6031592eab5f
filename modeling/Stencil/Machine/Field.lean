import Stencil.Failure
import Stencil.Schema

/-!
# Field access

What a name after a value means. On a map with text keys it is an entry, otherwise a method if one
applies, otherwise a field of the record or an entry of the map behind all pointers and boxes.
Access through a nil pointer or box yields nil.
-/

namespace Stencil.Value

/-- The method a name stands for on a value, and the receiver to pass it: pointers are followed for
methods on values, and a pointer to an addressable record is taken for methods on pointers. -/
def method? (schema : Schema) (name : String) : Value → Option (Method × Value)
  | record ty fields addressable =>
    match schema.method? ty name with
    | none => none
    | some m =>
      match m.receiver with
      | .value => some (m, record ty fields addressable)
      | .pointer =>
        if addressable then some (m, ptr (record ty fields addressable)) else none
  | ptr (record ty fields addressable) =>
    (schema.method? ty name).map fun m =>
      match m.receiver with
      | .value => (m, record ty fields true)
      | .pointer => (m, ptr (record ty fields addressable))
  | ptr (box v) => method? schema name v
  | box v => method? schema name v
  | _ => none

/-- The value behind all pointers and boxes, unless one of them is nil. A record right behind a
pointer is addressable. -/
def reach : Value → Option Value
  | nilPtr | nilBox => none
  | ptr v =>
    match v with
    | record ty fields _ => some (record ty fields true)
    | _ => reach v
  | box v => reach v
  | v => some v

/-- The error that a value has no field of a name. -/
def missingField (schema : Schema) (name : String) : Value → RuntimeError
  | record ty _ _ =>
    if (schema.method? ty name).any (·.receiver == .pointer) then
      .requiresPointerReceiver name ty.name
    else .fieldNotFound name ty.name
  | v => .notEvaluable name v.typeName

/-- The field or entry a name stands for on the value behind all pointers and boxes. -/
def plainField (schema : Schema) (name : String) : Value → Except RuntimeError Value
  | nil => .ok .nil
  | map .text entries => .ok (entryFor name entries).unboxed
  | record ty fields addressable =>
    match (record ty fields addressable).field? name with
    | some v => .ok v.unboxed
    | none => .error (missingField schema name (record ty fields addressable))
  | v => .error (missingField schema name v)

end Stencil.Value
