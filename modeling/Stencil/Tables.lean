import Std.Data.TreeMap
import Stencil.Function
import Stencil.Value

/-!
# Constant tables

The strings, values, byte chunks and functions that instructions refer to by index. Equal strings
share an index, and so do functions of one name. Each string is there twice: as a name, and as the
text that is pushed for it. A table that has no index left for a new entry is full.
-/

namespace Stencil

/-- The tables of a program. -/
structure Tables where
  strings : Array String
  stringIndex : Std.TreeMap String Nat
  /-- The strings once more, for instructions that push them. -/
  texts : Array String
  values : Array Value
  chunks : Array ByteArray
  funcs : Array Function
  funcIndex : Std.TreeMap String Nat

namespace Tables

/-- The number of strings, values or chunks a table can hold. -/
def wordLimit : Nat := Nat.pow 2 32

/-- The number of functions and of namespaces that instructions can refer to. -/
def halfWordLimit : Nat := Nat.pow 2 16

/-- Tables without entries. -/
def empty : Tables := ⟨#[], .empty, #[], #[], #[], #[], .empty⟩

/-- The index of a string, which is added if it is new. -/
def addString (t : Tables) (s : String) : Option (Nat × Tables) :=
  match t.stringIndex[s]? with
  | some index => some (index, t)
  | none =>
    let index := t.strings.size
    if index < wordLimit then
      some (index, { t with
        strings := t.strings.push s
        stringIndex := t.stringIndex.insert s index
        texts := t.texts.push s })
    else none

/-- The index of a new value. -/
def addValue (t : Tables) (v : Value) : Option (Nat × Tables) :=
  let index := t.values.size
  if index < wordLimit then some (index, { t with values := t.values.push v }) else none

/-- The index of a new chunk. -/
def addChunk (t : Tables) (bytes : ByteArray) : Option (Nat × Tables) :=
  let index := t.chunks.size
  if index < wordLimit then some (index, { t with chunks := t.chunks.push bytes }) else none

/-- The index of a function, which is added if its name is new. -/
def addFunc (t : Tables) (f : Function) : Option (Nat × Tables) :=
  match t.funcIndex[f.name]? with
  | some index => some (index, t)
  | none =>
    let index := t.funcs.size
    if index < halfWordLimit then
      some (index, { t with
        funcs := t.funcs.push f
        funcIndex := t.funcIndex.insert f.name index })
    else none

/-- The variable that holds the root data, named by the empty string. -/
def rootVar : Nat := 0

/-- The variable that holds the render variables. -/
def varsVar : Nat := 1

/-- The tables of a new program, which know the names of the two variables the machine uses. -/
def initial : Tables :=
  { empty with
    strings := #["", "Vars"]
    stringIndex := (Std.TreeMap.empty.insert "" rootVar).insert "Vars" varsVar
    texts := #["", "Vars"] }

end Tables
end Stencil
