import Std.Data.TreeMap
import Stencil.Function

/-!
# Function registries

The functions that templates may call, by name. A name can have a pure and a plain variant; the
pure one is preferred, so that constant calls can be evaluated early.
-/

namespace Stencil

/-- The variants of one name. -/
structure Variants where
  pure : Option Function
  plain : Option Function

namespace Variants

/-- Replace the variant of the same purity. -/
def insert (v : Variants) (f : Function) : Variants :=
  if f.pure then ⟨some f, v.plain⟩ else ⟨v.pure, some f⟩

/-- The preferred variant. -/
def preferred (v : Variants) : Option Function := v.pure.or v.plain

end Variants

/-- Functions by name. -/
structure Registry where
  names : Std.TreeMap String Variants

namespace Registry

/-- The registry without functions. -/
def empty : Registry := ⟨.empty⟩

/-- Register a function, replacing an earlier one of the same name and purity. -/
def insert (r : Registry) (f : Function) : Registry :=
  ⟨r.names.insert f.name ((r.names[f.name]?.getD ⟨none, none⟩).insert f)⟩

/-- Register functions one after the other. -/
def insertMany (r : Registry) (fs : List Function) : Registry := fs.foldl insert r

/-- Forget both variants of a name. -/
def erase (r : Registry) (name : String) : Registry := ⟨r.names.erase name⟩

/-- The function a name stands for. -/
def get? (r : Registry) (name : String) : Option Function :=
  r.names[name]?.bind Variants.preferred

/-- Whether a name stands for a function. -/
def contains (r : Registry) (name : String) : Bool := (r.get? name).isSome

/-- The number of names. -/
def size (r : Registry) : Nat := r.names.size

/-- The names, in order. -/
def nameList (r : Registry) : List String := r.names.keys

end Registry
end Stencil
