import Stencil.Binary64

/-!
# Map keys

Keys are truth values, integers, numbers or texts. They are totally ordered by kind and then by
content; numbers are ordered by their bit patterns, so a NaN is a key like any other and the two
zeros are different keys.
-/

namespace Stencil

/-- The kind of the keys of a map. -/
inductive KeyKind where
  | bool
  | int
  | float
  | text
deriving DecidableEq, Inhabited

namespace KeyKind

/-- The name of the kind. -/
def name : KeyKind → String
  | bool => "bool"
  | int => "int"
  | float => "float"
  | text => "string"

/-- Position of the kind in the order of keys. -/
def rank : KeyKind → Nat
  | bool => 0
  | int => 1
  | float => 2
  | text => 3

end KeyKind

/-- A map key. -/
inductive Key where
  | bool (b : Bool)
  | int (i : Int64)
  | float (x : Binary64)
  | text (s : String)
deriving DecidableEq, Inhabited

namespace Key

/-- The kind of a key. -/
def kind : Key → KeyKind
  | bool _ => .bool
  | int _ => .int
  | float _ => .float
  | text _ => .text

/-- The order of keys: by kind, then by content. -/
def order : Key → Key → Ordering
  | bool a, bool b => compare a.toNat b.toNat
  | int a, int b => compare a.toInt b.toInt
  | float a, float b => compare a.rank b.rank
  | text a, text b => compare a b
  | a, b => compare a.kind.rank b.kind.rank

instance : Ord Key := ⟨order⟩

instance : Std.ReflOrd Key where
  compare_self {k} := by
    change k.order k = .eq
    cases k <;> simp [order]

end Key
end Stencil
