import Std.Data.TreeMap
import Stencil.Tree

/-!
# Template sets

Templates that can call each other, and what the compiler has to know about the output they are
for.
-/

namespace Stencil

/-- Named templates, one of which is the root. -/
structure TemplateSet where
  trees : Std.TreeMap String Tree
  root : String
  contentType : String
  /-- The bytes written by the asset hook at the top. -/
  topAssets : ByteArray
  /-- The bytes written by the asset hook at the bottom. -/
  bottomAssets : ByteArray

namespace TemplateSet

/-- The set of a root template alone. -/
def ofRoot (root : Tree) : TemplateSet where
  trees := Std.TreeMap.empty.insert root.name root
  root := root.name
  contentType := "text/plain"
  topAssets := .empty
  bottomAssets := .empty

/-- Add a template, replacing one of the same name. -/
def insert (set : TemplateSet) (tree : Tree) : TemplateSet :=
  { set with trees := set.trees.insert tree.name tree }

/-- The template of a name. -/
def get? (set : TemplateSet) (name : String) : Option Tree := set.trees[name]?

/-- A template that has been put in is found under its name. -/
@[simp]
theorem get?_insert_self (set : TemplateSet) (tree : Tree) :
    (set.insert tree).get? tree.name = some tree := by
  simp [insert, get?]

/-- Whether there is a template of a name. -/
def contains (set : TemplateSet) (name : String) : Bool := set.trees.contains name

/-- The number of templates. -/
def size (set : TemplateSet) : Nat := set.trees.size

/-- The templates in the order of their names. -/
def toList (set : TemplateSet) : List (String × Tree) := set.trees.toList

end TemplateSet
end Stencil
