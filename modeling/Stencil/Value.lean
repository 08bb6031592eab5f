import Stencil.Entries
import Stencil.Key

/-!
# Values

The dynamic values that templates work on. A record names its type, whose methods and textual form
are looked up elsewhere; functions and streams are handles told apart by their numbers. A record
carries a flag that says whether a pointer to it may be taken: it is set on records reached through
pointers, on the elements of a sequence that is being iterated, and on fields of such records.
-/

namespace Stencil

/-- The content types of text: unescaped text, markup, and script source. -/
inductive TextKind where
  | plain
  | html
  | js
deriving DecidableEq, Inhabited

/-- A record type. Types are told apart by their numbers, names need not be unique. -/
structure RecordType where
  id : Nat
  name : String
  fields : List String
deriving DecidableEq, Inhabited

namespace RecordType

/-- The index of the field `name`; of several fields of one name the last counts. -/
def fieldIndex? (ty : RecordType) (name : String) : Option Nat :=
  (ty.fields.zipIdx.reverse.find? (·.1 == name)).map (·.2)

end RecordType

/-- A dynamically typed template value. -/
inductive Value where
  | nil
  | bool (b : Bool)
  | int (i : Int64)
  | float (x : Binary64)
  | text (kind : TextKind) (s : String)
  | seq (items : List Value)
  | map (kind : KeyKind) (entries : List (Key × Value))
  | record (ty : RecordType) (fields : List Value) (addressable : Bool)
  | nilPtr
  | ptr (target : Value)
  | nilBox
  | box (content : Value)
  | func (id : Nat) (name : String)
  | stream (id : Nat)
deriving Inhabited

namespace Key

/-- A key as a value. -/
def toValue : Key → Value
  | bool b => .bool b
  | int i => .int i
  | float x => .float x
  | text s => .text .plain s

end Key

namespace Value

/-- Unescaped text. -/
abbrev str (s : String) : Value := .text .plain s

/-- Markup that is already safe to emit. -/
abbrev html (s : String) : Value := .text .html s

/-- Script source that is already safe to emit. -/
abbrev js (s : String) : Value := .text .js s

/-- A map of the given kind with no entries. -/
abbrev emptyMap (kind : KeyKind) : Value := .map kind []

/-- A map with the given entries. Its kind is that of the first key, text if there is none. -/
def mapOf (entries : List (Key × Value)) : Value :=
  let kind := match entries with
    | (k, _) :: _ => k.kind
    | [] => .text
  .map kind (Entries.ofList entries)

/-- Set the value of a key of a map of the given kind, which takes only keys of that kind. Answers the
entries and whether the key has been taken. -/
def setKey (kind : KeyKind) (k : Key) (v : Value) (entries : List (Key × Value)) :
    List (Key × Value) × Bool :=
  if k.kind = kind then (Entries.insert k v entries, true) else (entries, false)

/-- The entries of a map of the given kind that has been filled with associations in order. -/
def filled (kind : KeyKind) (ops : List (Key × Value)) : List (Key × Value) :=
  ops.foldl (fun entries e => (setKey kind e.1 e.2 entries).1) []

/-- A map takes entries one after the other. -/
theorem filled_concat (kind : KeyKind) (ops : List (Key × Value)) (k : Key) (v : Value) :
    filled kind (ops ++ [(k, v)]) = (setKey kind k v (filled kind ops)).1 := by
  simp [filled]

/-- A record with the given fields. Missing trailing fields are nil, extra ones are dropped. -/
def recordOf (ty : RecordType) (fields : List Value) : Value :=
  let size := ty.fields.length
  .record ty (fields.take size ++ List.replicate (size - fields.length) .nil) false

/-- Whether the value is nil, a nil pointer or a nil box. -/
def isNil : Value → Bool
  | nil | nilPtr | nilBox => true
  | _ => false

/-- The content of a text of any kind. -/
def text? : Value → Option String
  | text _ s => some s
  | _ => none

/-- Whether the value is a text of any kind. -/
def isText : Value → Bool
  | text _ _ => true
  | _ => false

/-- The elements of a sequence. -/
def seq? : Value → Option (List Value)
  | seq items => some items
  | _ => none

/-- The size of a text in bytes, of a sequence in elements and of a map in entries. -/
def size? : Value → Option Nat
  | text _ s => some s.utf8ByteSize
  | seq items => some items.length
  | map _ entries => some entries.length
  | _ => none

/-- Template truth: zero values and empty containers are false. -/
def isTrue : Value → Bool
  | nil | nilPtr | nilBox => false
  | bool b => b
  | int i => i != 0
  | float x => !x.isZero
  | text _ s => !s.isEmpty
  | seq items => !items.isEmpty
  | map _ entries => !entries.isEmpty
  | ptr _ | box _ | record .. | func .. | stream _ => true

/-- Mark a record as one a pointer may be taken to. -/
def addressed : Value → Value
  | record ty fields _ => record ty fields true
  | v => v

/-- Whether a pointer to this value can be taken. -/
def isAddressable : Value → Bool
  | record _ _ addressable => addressable
  | _ => false

/-- Follow one pointer or box. A record reached through a pointer is addressable. -/
def deref? : Value → Option Value
  | ptr v => some v.addressed
  | box v => some v
  | _ => none

/-- Open one box that is not nil and leave everything else untouched. -/
def unboxed : Value → Value
  | box v => v
  | v => v

/-- The name of the value's type as it appears in messages. -/
def typeName : Value → String
  | nil => "nil"
  | bool _ => "bool"
  | int _ => "int"
  | float _ => "float"
  | text .plain _ => "string"
  | text .html _ => "html"
  | text .js _ => "js"
  | seq _ => "seq"
  | map kind _ => "map[" ++ kind.name ++ "]"
  | record ty _ _ => ty.name
  | ptr v => "*" ++ v.typeName
  | nilPtr => "*nil"
  | box _ | nilBox => "dyn"
  | func .. => "func"
  | stream _ => "stream"

/-- The field `name` of a record. Fields of addressable records are addressable. -/
def field? (name : String) : Value → Option Value
  | record ty fields addressable => do
    let index ← ty.fieldIndex? name
    let v ← fields[index]?
    return if addressable then v.addressed else v
  | _ => none

/-- The entry of a map for a text key, nil if there is none. -/
def entryFor (name : String) (entries : List (Key × Value)) : Value :=
  (Entries.get? (Key.text name) entries).getD .nil

mutual

/-- Equality of values. Numbers compare as numbers, records of one type by their fields, functions
and streams by identity; the kind of a map and addressability play no part. -/
def same : Value → Value → Bool
  | nil, nil => true
  | bool a, bool b => a == b
  | int a, int b => a == b
  | float a, float b => a.same b
  | text j a, text k b => j == k && a == b
  | seq a, seq b => sameList a b
  | map _ a, map _ b => sameEntries a b
  | record s a _, record t b _ => s == t && sameList a b
  | nilPtr, nilPtr => true
  | ptr a, ptr b => same a b
  | nilBox, nilBox => true
  | box a, box b => same a b
  | func a _, func b _ => a == b
  | stream a, stream b => a == b
  | _, _ => false

/-- Equality of lists of values, element by element. -/
def sameList : List Value → List Value → Bool
  | [], [] => true
  | a :: as, b :: bs => same a b && sameList as bs
  | _, _ => false

/-- Equality of entries in key order. -/
def sameEntries : List (Key × Value) → List (Key × Value) → Bool
  | [], [] => true
  | (j, a) :: as, (k, b) :: bs => j == k && same a b && sameEntries as bs
  | _, _ => false

end

end Value
end Stencil
