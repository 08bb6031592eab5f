import Stencil.Text.Classes

/-!
# Locations

Where in a template something went wrong. A position is a byte offset into the template's source
text; it has a line and a column only when that text is known and the offset lies on a character
boundary of it. Lines count from one and leave out the header line and the headers of definitions
in front of the position; columns count bytes from zero.
-/

namespace Stencil

/-- A byte offset into the source text of a template. -/
abbrev Pos := Nat

/-- A place in a template. -/
structure Location where
  template : String
  offset : Pos
  /-- Line and column, if known. -/
  place : Option (Nat × Nat)
deriving DecidableEq, Inhabited

namespace Location

/-- The number of bytes that characters take in UTF-8. -/
def byteSize : List Char → Nat
  | [] => 0
  | c :: rest => c.utf8Size + byteSize rest

/-- The bytes of two texts together are those of both. -/
@[simp]
theorem byteSize_append (before after : List Char) :
    byteSize (before ++ after) = byteSize before + byteSize after := by
  induction before with
  | nil => exact (Nat.zero_add _).symm
  | cons c before ih => rw [List.cons_append, byteSize, byteSize, ih, Nat.add_assoc]

/-- Split a text at a byte offset, which must be a character boundary. -/
def splitAtByte? : List Char → Nat → Option (List Char × List Char)
  | chars, 0 => some ([], chars)
  | [], _ + 1 => none
  | c :: rest, n + 1 =>
    if c.utf8Size ≤ n + 1 then
      (splitAtByte? rest (n + 1 - c.utf8Size)).map fun (before, after) => (c :: before, after)
    else none

/-- A text that is split at a byte is made of the two parts, and the first of them has as many bytes. -/
theorem splitAtByte?_eq_some {chars before after : List Char} {n : Nat}
    (h : splitAtByte? chars n = some (before, after)) :
    chars = before ++ after ∧ byteSize before = n := by
  fun_induction splitAtByte? chars n generalizing before with
  | case1 chars => simp_all [byteSize]
  | case2 n => simp at h
  | case3 c rest n hc ih =>
    simp only [Option.map_eq_some_iff, Prod.mk.injEq, Prod.exists] at h
    obtain ⟨b, a, hb, rfl, rfl⟩ := h
    obtain ⟨rfl, hn⟩ := ih hb
    refine ⟨rfl, ?_⟩
    simp only [byteSize] at hn ⊢
    omega
  | case4 c rest n hc => simp at h

/-- Two texts together can be split where the first one ends. -/
theorem splitAtByte?_append (before after : List Char) :
    splitAtByte? (before ++ after) (byteSize before) = some (before, after) := by
  induction before with
  | nil => cases after <;> simp [splitAtByte?, byteSize]
  | cons c before ih =>
    obtain ⟨n, hn⟩ : ∃ n, byteSize (c :: before) = n + 1 :=
      ⟨byteSize (c :: before) - 1, by
        have := c.utf8Size_pos
        simp only [byteSize]
        omega⟩
    have hc : n + 1 = c.utf8Size + byteSize before := by simp [← hn, byteSize]
    rw [hn, List.cons_append, splitAtByte?, if_pos (by omega),
      show n + 1 - c.utf8Size = byteSize before by omega, ih]
    rfl

/-- Splitting loses nothing and cuts at the offset. -/
theorem splitAtByte?_eq_some_iff {chars before after : List Char} {n : Nat} :
    splitAtByte? chars n = some (before, after) ↔
      chars = before ++ after ∧ byteSize before = n :=
  ⟨splitAtByte?_eq_some, fun ⟨hc, hn⟩ => hc ▸ hn ▸ splitAtByte?_append before after⟩

/-- Whether the text after an opening delimiter starts a definition. -/
def opensDefine (chars : List Char) : Bool :=
  let body := match chars with
    | '-' :: rest => rest
    | _ => chars
  "define".toList.isPrefixOf (body.dropWhile Text.isBlank)

/-- The number of headers of definitions in a text. -/
def countDefines : List Char → Nat
  | '{' :: '{' :: rest => (if opensDefine rest then 1 else 0) + countDefines rest
  | _ :: rest => countDefines rest
  | [] => 0

/-- Line and column right after the text `before`. -/
def placeAfter (before : List Char) : Nat × Nat :=
  let line := 1 + before.count '\n'
  let column := byteSize (before.reverse.takeWhile (· != '\n'))
  (max 1 (line - (1 + countDefines before)), column)

/-- The place at a byte offset of a template whose source text may be known. -/
def ofOffset (template : String) (offset : Pos) (source : Option String) : Location where
  template := template
  offset := offset
  place := do
    let text ← source
    let (before, _) ← splitAtByte? text.toList offset
    return placeAfter before

/-- The text of a location. -/
def display (loc : Location) : String :=
  match loc.place with
  | some (line, column) => loc.template ++ ":" ++ toString line ++ ":" ++ toString column
  | none => loc.template ++ "@" ++ toString loc.offset

end Location
end Stencil
