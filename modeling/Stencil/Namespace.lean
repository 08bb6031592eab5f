/-!
# Namespaces

A name of the form `ns|rest` belongs to the namespace `ns`, the part before its first separator.
Names without a separator belong to no namespace.
-/

namespace Stencil.Namespace

/-- The character between a namespace and the rest of a name. -/
def separator : Char := '|'

/-- Whether a name belongs to some namespace. -/
def isQualified (name : String) : Bool := name.toList.contains separator

/-- The namespace of a name, empty if it has none. -/
def of (name : String) : String :=
  if isQualified name then String.ofList (name.toList.takeWhile (· != separator)) else ""

/-- The rest of a list of characters that starts with another one. -/
def dropStart? : List Char → List Char → Option (List Char)
  | [], text => some text
  | _ :: _, [] => none
  | c :: start, d :: text => if c = d then dropStart? start text else none

/-- A start can be dropped exactly from the texts that it is in front of. -/
theorem dropStart?_eq_some_iff {start text rest : List Char} :
    dropStart? start text = some rest ↔ text = start ++ rest := by
  induction start generalizing text with
  | nil => simp [dropStart?]
  | cons c start ih =>
    cases text with
    | nil => simp [dropStart?]
    | cons d text =>
      by_cases h : c = d
      · simp [dropStart?, h, ih]
      · simp [dropStart?, h, Ne.symm h]

/-- The rest of a text that starts with another one. -/
def stripStart? (start text : String) : Option String :=
  (dropStart? start.toList text.toList).map String.ofList

/-- The namespace of `target` as seen from the namespace `caller`. -/
def relative (caller target : String) : String :=
  if caller.isEmpty then target else (stripStart? caller target).getD target

/-- The name that a qualified name has inside the namespace `ns`. -/
def localName? (ns name : String) : Option String :=
  match dropStart? ns.toList name.toList with
  | some (c :: rest) => if c = separator then some (String.ofList rest) else none
  | _ => none

end Stencil.Namespace
