import Stencil.Namespace
import Stencil.Value

/-!
# Render variables

The variables a host passes to a render. A variable `ns|key` is seen as `key` by templates of the
namespace `ns`, where it shadows an unqualified `key`; templates elsewhere do not see it.
-/

namespace Stencil

/-- Variables by name. -/
structure Vars where
  entries : List (String × Value)
deriving Inhabited

namespace Vars

/-- No variables. -/
def empty : Vars := ⟨[]⟩

/-- Set a variable. -/
def insert (vars : Vars) (name : String) (v : Value) : Vars :=
  ⟨Entries.insert name v vars.entries⟩

/-- Variables set one after the other. -/
def ofList (entries : List (String × Value)) : Vars := ⟨Entries.ofList entries⟩

/-- The value of a variable. -/
def get? (vars : Vars) (name : String) : Option Value := Entries.get? name vars.entries

/-- The number of variables. -/
def size (vars : Vars) : Nat := vars.entries.length

/-- The entries seen from a namespace: the unqualified ones, then those of the namespace under
their local names, so that the latter win. -/
def visible {α : Type} (ns : String) (entries : List (String × α)) : List (String × α) :=
  (entries.filter fun e => !Namespace.isQualified e.1) ++
    entries.filterMap fun e => (Namespace.localName? ns e.1).map fun name => (name, e.2)

/-- The variables seen from a namespace. -/
def unpack (vars : Vars) (ns : String) : Vars := ofList (visible ns vars.entries)

/-- The variables as a map. -/
def toValue (vars : Vars) : Value :=
  .map .text (Entries.ofList (vars.entries.map fun e => (Key.text e.1, e.2)))

end Vars

namespace Value

/-- The entries of a map whose keys are texts. -/
def textEntries (entries : List (Key × Value)) : List (String × Value) :=
  entries.filterMap fun e =>
    match e.1 with
    | .text s => some (s, e.2)
    | _ => none

/-- A map of variables as seen from a namespace. A map of another kind of keys and the view from
no namespace are the map itself. -/
def unpackMap (kind : KeyKind) (entries : List (Key × Value)) (ns : String) : Value :=
  if ns.isEmpty || kind != .text then .map kind entries
  else
    .map .text
      (Entries.ofList ((Vars.visible ns (textEntries entries)).map fun e => (Key.text e.1, e.2)))

end Value
end Stencil
