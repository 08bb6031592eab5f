import Stencil.Decimal.Notation
import Stencil.Schema

/-!
# The text of a value

Two textual forms: the one that is printed, in which a record type may have its own say, and the
diagnostic one, which shows the structure of a value. The printed form is put together of pieces, which
are written one after the other.
-/

namespace Stencil

namespace Key

/-- The diagnostic form of a key. -/
def debug : Key → String
  | bool b => "Bool(" ++ toString b ++ ")"
  | int i => "Int(" ++ toString i.toInt ++ ")"
  | float x => "Float(" ++ NumberStyle.keyed.format x ++ ")"
  | text s => "Str(" ++ Text.quoted s ++ ")"

/-- The printed form of a key. -/
def display : Key → String
  | bool b => toString b
  | int i => toString i.toInt
  | float x => NumberStyle.printed.format x
  | text s => s

end Key

namespace TextKind

/-- The name of the content type in diagnostic forms. -/
def debugName : TextKind → String
  | plain => "Str"
  | html => "Html"
  | js => "Js"

end TextKind

namespace Value

mutual

/-- The printed form of a value. -/
def display (schema : Schema) : Value → String
  | nil | nilPtr | nilBox => "<nil>"
  | bool b => toString b
  | int i => toString i.toInt
  | float x => NumberStyle.printed.format x
  | text _ s => s
  | seq items => "[" ++ " ".intercalate (displayList schema items) ++ "]"
  | map _ entries => "map[" ++ " ".intercalate (displayEntries schema entries) ++ "]"
  | record ty fields addressable =>
    match (schema.info ty).stringer with
    | some stringer => stringer (record ty fields addressable) (displayList schema fields)
    | none => "\x7b" ++ " ".intercalate (displayList schema fields) ++ "\x7d"
  | ptr v =>
    match v with
    | record ty _ _ =>
      (if (schema.info ty).stringer.isNone then "&" else "") ++ display schema v
    | _ => display schema v
  | box v => display schema v
  | func _ name => "<func " ++ name ++ ">"
  | stream _ => "<stream>"

/-- The printed forms of values. -/
def displayList (schema : Schema) : List Value → List String
  | [] => []
  | v :: rest => display schema v :: displayList schema rest

/-- The printed forms of entries. -/
def displayEntries (schema : Schema) : List (Key × Value) → List String
  | [] => []
  | (k, v) :: rest => (k.display ++ ":" ++ display schema v) :: displayEntries schema rest

end

mutual

/-- The pieces in which the printed form of a value is written. -/
def pieces (schema : Schema) : Value → List String
  | nil | nilPtr | nilBox => ["<nil>"]
  | bool b => [toString b]
  | int i => [toString i.toInt]
  | float x => [NumberStyle.printed.format x]
  | text _ s => [s]
  | seq items => "[" :: ([" "].intercalate (piecesList schema items) ++ ["]"])
  | map _ entries => "map[" :: ([" "].intercalate (piecesEntries schema entries) ++ ["]"])
  | record ty fields addressable =>
    match (schema.info ty).stringer with
    | some stringer => [stringer (record ty fields addressable) (displayList schema fields)]
    | none => "\x7b" :: ([" "].intercalate (piecesList schema fields) ++ ["\x7d"])
  | ptr v =>
    match v with
    | record ty _ _ =>
      (if (schema.info ty).stringer.isNone then ["&"] else []) ++ pieces schema v
    | _ => pieces schema v
  | box v => pieces schema v
  | func _ name => ["<func ", name, ">"]
  | stream _ => ["<stream>"]

/-- The pieces of values. -/
def piecesList (schema : Schema) : List Value → List (List String)
  | [] => []
  | v :: rest => pieces schema v :: piecesList schema rest

/-- The pieces of entries. -/
def piecesEntries (schema : Schema) : List (Key × Value) → List (List String)
  | [] => []
  | (k, v) :: rest => (k.display :: ":" :: pieces schema v) :: piecesEntries schema rest

end

/-- Pieces with spaces between them are put together with spaces. -/
theorem join_intercalate (all : List (List String)) :
    String.join ([" "].intercalate all) = " ".intercalate (all.map String.join) := by
  induction all with
  | nil => rfl
  | cons first rest ih =>
    cases rest with
    | nil => rw [List.intercalate_singleton, List.map_singleton, String.intercalate_singleton]
    | cons second rest =>
      rw [List.intercalate_cons_cons, List.map_cons, List.map_cons, String.intercalate_cons_cons,
        String.join_append, String.join_append, ih, List.map_cons, String.join_cons]
      simp

mutual

/-- The pieces of a value make up its printed form. -/
theorem join_pieces (schema : Schema) : ∀ v : Value, String.join (pieces schema v) = display schema v
  | nil | nilPtr | nilBox | bool _ | int _ | float _ | text .. | stream _ => by
    simp [pieces, display]
  | func _ name => by simp [pieces, display, String.append_assoc]
  | seq items => by
    simp [pieces, display, join_intercalate, join_piecesList schema items, String.append_assoc]
  | map _ entries => by
    simp [pieces, display, join_intercalate, join_piecesEntries schema entries, String.append_assoc]
  | record ty fields addressable => by
    unfold pieces display
    cases (schema.info ty).stringer with
    | some stringer => simp
    | none => simp [join_intercalate, join_piecesList schema fields, String.append_assoc]
  | ptr v => by
    have htarget := join_pieces schema v
    cases v with
    | record ty fields addressable =>
      simp only [pieces, display, String.join_append] at htarget ⊢
      rw [htarget]
      split <;> simp
    | _ => simpa only [pieces, display] using htarget
  | box v => by simpa only [pieces, display] using join_pieces schema v

/-- The pieces of values make up their printed forms. -/
theorem join_piecesList (schema : Schema) : ∀ items : List Value,
    (piecesList schema items).map String.join = displayList schema items
  | [] => rfl
  | v :: rest => by
    rw [piecesList, displayList, List.map_cons, join_pieces schema v, join_piecesList schema rest]

/-- The pieces of entries make up their printed forms. -/
theorem join_piecesEntries (schema : Schema) : ∀ entries : List (Key × Value),
    (piecesEntries schema entries).map String.join = displayEntries schema entries
  | [] => rfl
  | (k, v) :: rest => by
    rw [piecesEntries, displayEntries, List.map_cons, String.join_cons, String.join_cons,
      join_pieces schema v, join_piecesEntries schema rest, String.append_assoc]

end

mutual

/-- The diagnostic form of a value. -/
def debug : Value → String
  | nil => "Nil"
  | bool b => "Bool(" ++ toString b ++ ")"
  | int i => "Int(" ++ toString i.toInt ++ ")"
  | float x => "Float(" ++ NumberStyle.plain.format x ++ ")"
  | text kind s => kind.debugName ++ "(" ++ Text.quoted s ++ ")"
  | seq items => "[" ++ ", ".intercalate (debugList items) ++ "]"
  | map _ entries => "\x7b" ++ ", ".intercalate (debugEntries entries) ++ "\x7d"
  | record ty fields _ =>
    if ty.fields.isEmpty then ty.name
    else ty.name ++ " \x7b " ++ ", ".intercalate (debugFields ty.fields fields) ++ " \x7d"
  | ptr v => "Ptr(" ++ debug v ++ ")"
  | nilPtr => "Ptr(nil)"
  | box v => "Dyn(" ++ debug v ++ ")"
  | nilBox => "Dyn(nil)"
  | func _ name => "Func(" ++ name ++ ")"
  | stream _ => "Stream"

/-- The diagnostic forms of values. -/
def debugList : List Value → List String
  | [] => []
  | v :: rest => debug v :: debugList rest

/-- The diagnostic forms of entries. -/
def debugEntries : List (Key × Value) → List String
  | [] => []
  | (k, v) :: rest => (k.debug ++ ": " ++ debug v) :: debugEntries rest

/-- The diagnostic forms of the fields of a record with their names. -/
def debugFields (names : List String) : List Value → List String
  | [] => []
  | v :: rest =>
    match names with
    | [] => []
    | name :: names => (name ++ ": " ++ debug v) :: debugFields names rest

end

/-- The diagnostic form of a list of values. -/
def debugAll (values : List Value) : String := "[" ++ ", ".intercalate (debugList values) ++ "]"

end Value
end Stencil
