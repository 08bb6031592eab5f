import Stencil.Json
import Stencil.Proofs.Reading

/-!
# Rendered data

The text of a datum with finite numbers is read back as the datum: strings by their escapes, numbers by
their numerals, and arrays and objects part by part.
-/

namespace Stencil

namespace Json

/-- Whether all numbers in a datum are finite. -/
inductive IsFinite : Json → Prop where
  | null : IsFinite null
  | bool (b : Bool) : IsFinite (bool b)
  | int (i : Int64) : IsFinite (int i)
  | float {x : Binary64} (hnan : x.isNaN = false) (hinfinite : x.isInfinite = false) : IsFinite (float x)
  | string (s : String) : IsFinite (string s)
  | array {items : List Json} (hitems : ∀ j ∈ items, IsFinite j) : IsFinite (array items)
  | object {members : List (String × Json)} (hmembers : ∀ m ∈ members, IsFinite m.2) :
    IsFinite (object members)

mutual

/-- What a reader takes a datum for. Numbers are told by their text. -/
def datum : Json → Datum
  | null => .null
  | bool b => .bool b
  | int i => .number (toString i.toInt)
  | float x => .number (NumberStyle.script.format x)
  | string s => .string s
  | array items => .array (datumItems items)
  | object members => .object (datumMembers members)

/-- What a reader takes data for. -/
def datumItems : List Json → List Datum
  | [] => []
  | j :: rest => datum j :: datumItems rest

/-- What a reader takes the members of an object for. -/
def datumMembers : List (String × Json) → List (String × Datum)
  | [] => []
  | (k, j) :: rest => (k, datum j) :: datumMembers rest

end

end Json

namespace Json

variable {c : Char} {cs rest : List Char} {fuel : Nat} {j : Json}

/-! ### Strings -/

/-- The characters of a string are those of its characters between quotes. -/
theorem toList_stringText (s : String) :
    (stringText s).toList = '"' :: (s.toList.flatMap (fun c => (stringChar c).toList) ++ ['"']) := by
  rw [stringText, String.toList_append, String.toList_append, String.toList_join, List.flatMap_map]
  rfl

/-- The code of a control character tells its number. -/
theorem controlText : ∀ n < 0x20,
    ("\\u00" ++ Text.hexByte n.toUInt8).toList =
      ['\\', 'u', '0', '0', Nat.digitChar (n / 16), Nat.digitChar (n % 16)] ∧
    Quoted.unit? '0' '0' (Nat.digitChar (n / 16)) (Nat.digitChar (n % 16)) = some n := by
  decide

/-- Each character of a string is read back. -/
theorem readChar_stringChar (c : Char) (rest : List Char) :
    Quoted.readChar ((stringChar c).toList ++ rest) = some (c, rest) := by
  by_cases hshort : c ∈ ['"', '\\', '\x08', '\t', '\n', '\x0c', '\r']
  · simp only [List.mem_cons, List.not_mem_nil, or_false] at hshort
    rcases hshort with rfl | rfl | rfl | rfl | rfl | rfl | rfl <;> rfl
  simp only [List.mem_cons, List.not_mem_nil, or_false, not_or] at hshort
  by_cases hcontrol : c.toNat < 0x20
  · have hcode := controlText c.toNat hcontrol
    have hchar : stringChar c = "\\u00" ++ Text.hexByte c.toNat.toUInt8 := by
      simp [stringChar, hshort, hcontrol]
    rw [hchar, hcode.1]
    exact Quoted.readChar_number hcode.2 rest
  · have hchar : (stringChar c).toList = [c] := by simp [stringChar, hshort, hcontrol]
    rw [hchar]
    exact Quoted.readChar_self hshort.1 hshort.2.1 (Nat.le_of_not_lt hcontrol) rest

/-- Each character of a string has a code. -/
theorem toList_stringChar_ne_nil (c : Char) : (stringChar c).toList ≠ [] := by
  intro h
  have hread := readChar_stringChar c []
  rw [h] at hread
  cases hread

/-- A string is read back. -/
theorem readChars_stringChar (hfuel : (cs.flatMap fun c => (stringChar c).toList).length < fuel)
    (rest : List Char) :
    Quoted.readChars fuel (cs.flatMap (fun c => (stringChar c).toList) ++ '"' :: rest) = some (cs, rest) := by
  induction cs generalizing fuel with
  | nil =>
    obtain _ | fuel := fuel
    · cases hfuel
    · rfl
  | cons c cs ih =>
    have hpos := List.length_pos_iff.mpr (toList_stringChar_ne_nil c)
    rw [List.flatMap_cons, List.length_append] at hfuel
    obtain _ | fuel := fuel
    · cases hfuel
    · rw [List.flatMap_cons, List.append_assoc]
      exact Quoted.readChars_of_readChar (readChar_stringChar c _) (ih (by omega))

/-! ### Data -/

/-- What stands between and behind the parts of a datum closes them. -/
theorem closes_cons (h : c ∈ [',', ']', '\x7d']) (rest : List Char) : Numeral.Closes (c :: rest) := by
  rintro _ ⟨⟩
  exact h

/-- Whether the text of a datum is read back up to what closes it. -/
def ReadsBack (j : Json) : Prop :=
  ∀ fuel rest, j.render.toList.length < fuel → Numeral.Closes rest →
    Datum.read fuel (j.render.toList ++ rest) = some (j.datum, rest)

/-- The characters of the items of an array. -/
def itemsText (items : List Json) : List Char := (",".intercalate (renderItems items)).toList

/-- The characters of the members of an object. -/
def membersText (members : List (String × Json)) : List Char :=
  (",".intercalate (renderMembers members)).toList

/-- The text of an array has brackets around its items. -/
theorem toList_render_array (items : List Json) :
    (array items).render.toList = '[' :: (itemsText items ++ [']']) := by
  rw [render, String.toList_append, String.toList_append]
  rfl

/-- The text of an object has braces around its members. -/
theorem toList_render_object (members : List (String × Json)) :
    (object members).render.toList = '\x7b' :: (membersText members ++ ['\x7d']) := by
  rw [render, String.toList_append, String.toList_append]
  rfl

/-- A single item has no comma. -/
theorem itemsText_singleton (j : Json) : itemsText [j] = j.render.toList := by
  rw [itemsText, renderItems, renderItems, String.intercalate_singleton]

/-- The first of several items has a comma behind it. -/
theorem itemsText_cons (j k : Json) (items : List Json) :
    itemsText (j :: k :: items) = j.render.toList ++ ',' :: itemsText (k :: items) := by
  rw [itemsText, renderItems, renderItems, String.intercalate_cons_cons, String.toList_append,
    String.toList_append, List.append_assoc]
  rfl

/-- A single member has no comma. -/
theorem membersText_singleton (k : String) (j : Json) :
    membersText [(k, j)] = (stringText k).toList ++ ':' :: j.render.toList := by
  rw [membersText, renderMembers, renderMembers, String.intercalate_singleton, String.toList_append,
    String.toList_append, List.append_assoc]
  rfl

/-- The first of several members has a comma behind it. -/
theorem membersText_cons (k : String) (j : Json) (m : String × Json) (members : List (String × Json)) :
    membersText ((k, j) :: m :: members) =
      (stringText k).toList ++ ':' :: (j.render.toList ++ ',' :: membersText (m :: members)) := by
  obtain ⟨k', j'⟩ := m
  rw [membersText, renderMembers, renderMembers, String.intercalate_cons_cons, String.toList_append,
    String.toList_append, String.toList_append, String.toList_append]
  simp only [List.append_assoc]
  rfl

/-- The items of an array are read back if each of them is. -/
theorem readItems_itemsText {items : List Json} (h : ∀ k ∈ j :: items, ReadsBack k)
    (hfuel : (itemsText (j :: items)).length + 1 < fuel) (rest : List Char) :
    Datum.readItems fuel (itemsText (j :: items) ++ ']' :: rest) =
      some (datumItems (j :: items), rest) := by
  induction items generalizing j fuel with
  | nil =>
    rw [itemsText_singleton] at hfuel ⊢
    obtain _ | fuel := fuel
    · cases hfuel
    · have hj : ReadsBack j := h j (List.mem_singleton_self j)
      exact Datum.readItems_last (hj fuel _ (by omega) (closes_cons (by decide) rest))
  | cons k items ih =>
    obtain ⟨hj, hitems⟩ := List.forall_mem_cons.mp h
    rw [itemsText_cons, List.length_append, List.length_cons] at hfuel
    rw [itemsText_cons, List.append_assoc, List.cons_append]
    obtain _ | fuel := fuel
    · cases hfuel
    · exact Datum.readItems_cons (hj fuel _ (by omega) (closes_cons (by decide) _)) (ih hitems (by omega))

/-- The key of a member is read back. -/
theorem readKey_stringText (k : String) (hfuel : (stringText k).toList.length ≤ fuel) (rest : List Char) :
    Datum.readKey fuel (Datum.skipBlanks ((stringText k).toList ++ ':' :: rest)) = some (k, rest) := by
  rw [toList_stringText, List.length_cons, List.length_append, List.length_singleton] at hfuel
  rw [toList_stringText, List.cons_append, List.append_assoc, List.singleton_append,
    Datum.skipBlanks_cons (by decide), Datum.readKey_eq (readChars_stringChar (by omega) _),
    String.ofList_toList]

/-- The members of an object are read back if each of their data is. -/
theorem readMembers_membersText {members : List (String × Json)} {k : String}
    (h : ∀ m ∈ (k, j) :: members, ReadsBack m.2)
    (hfuel : (membersText ((k, j) :: members)).length + 1 < fuel) (rest : List Char) :
    Datum.readMembers fuel (membersText ((k, j) :: members) ++ '\x7d' :: rest) =
      some (datumMembers ((k, j) :: members), rest) := by
  induction members generalizing k j fuel with
  | nil =>
    have hj : ReadsBack j := h (k, j) (List.mem_singleton_self (k, j))
    rw [membersText_singleton, List.length_append, List.length_cons] at hfuel
    rw [membersText_singleton, List.append_assoc, List.cons_append]
    obtain _ | fuel := fuel
    · cases hfuel
    · exact Datum.readMembers_last (readKey_stringText k (by omega) _)
        (hj fuel _ (by omega) (closes_cons (by decide) rest))
  | cons m members ih =>
    obtain ⟨k', j'⟩ := m
    have hj : ReadsBack j := h (k, j) List.mem_cons_self
    have hmembers : ∀ m ∈ (k', j') :: members, ReadsBack m.2 := fun m hm => h m (List.mem_cons_of_mem _ hm)
    rw [membersText_cons, List.length_append, List.length_cons, List.length_append, List.length_cons] at hfuel
    rw [membersText_cons, List.append_assoc, List.cons_append, List.append_assoc, List.cons_append]
    obtain _ | fuel := fuel
    · cases hfuel
    · exact Datum.readMembers_cons (readKey_stringText k (by omega) _)
        (hj fuel _ (by omega) (closes_cons (by decide) _)) (ih hmembers (by omega))

/-- A reader of data needs some fuel. -/
theorem readsBack_of_succ (h : ∀ fuel rest, j.render.toList.length ≤ fuel → Numeral.Closes rest →
    Datum.read (fuel + 1) (j.render.toList ++ rest) = some (j.datum, rest)) : ReadsBack j := by
  intro fuel rest hfuel hrest
  cases fuel with
  | zero => cases hfuel
  | succ fuel => exact h fuel rest (Nat.le_of_lt_succ hfuel) hrest

/-- Data that are rendered as numerals are read back. -/
theorem readsBack_of_numeral {text : String} (h : Numeral.Is text.toList) (hrender : j.render = text)
    (hdatum : j.datum = .number text) : ReadsBack j := by
  refine readsBack_of_succ fun fuel rest _ hrest => ?_
  rw [hrender, Datum.read_number h hrest, String.ofList_toList, hdatum]

/-- Data with finite numbers are read back. -/
theorem readsBack_of_isFinite (h : j.IsFinite) : ReadsBack j := by
  induction h with
  | null => exact readsBack_of_succ fun _ _ _ _ => rfl
  | bool b => cases b <;> exact readsBack_of_succ fun _ _ _ _ => rfl
  | int i => exact readsBack_of_numeral (Numeral.is_toString i.toInt) rfl rfl
  | float hnan hinfinite => exact readsBack_of_numeral (Numeral.is_script hnan hinfinite) rfl rfl
  | string s =>
    have htext := toList_stringText s
    refine readsBack_of_succ fun fuel rest hfuel _ => ?_
    rw [render, htext, List.length_cons, List.length_append, List.length_singleton] at hfuel
    rw [render, htext, List.cons_append, List.append_assoc, List.singleton_append,
      Datum.read_string (readChars_stringChar (by omega) rest), String.ofList_toList, datum]
  | @array items _ ih =>
    refine readsBack_of_succ fun fuel rest hfuel _ => ?_
    cases items with
    | nil => rfl
    | cons j items =>
      rw [toList_render_array, List.length_cons, List.length_append, List.length_singleton] at hfuel
      rw [toList_render_array, List.cons_append, List.append_assoc, List.singleton_append,
        Datum.read_array (readItems_itemsText ih (by omega) rest), datum]
  | @object members _ ih =>
    refine readsBack_of_succ fun fuel rest hfuel _ => ?_
    cases members with
    | nil => rfl
    | cons m members =>
      obtain ⟨k, j⟩ := m
      rw [toList_render_object, List.length_cons, List.length_append, List.length_singleton] at hfuel
      rw [toList_render_object, List.cons_append, List.append_assoc, List.singleton_append,
        Datum.read_object (readMembers_membersText ih (by omega) rest), datum]

/-- A reader takes the text of a datum with finite numbers for the datum. -/
theorem read?_render (h : j.IsFinite) : Datum.read? j.render = some j.datum := by
  have hfuel : j.render.toList.length < j.render.length + 1 := by
    rw [String.length_toList]
    exact Nat.lt_succ_self _
  have hread := readsBack_of_isFinite h (j.render.length + 1) [] hfuel nofun
  rw [List.append_nil] at hread
  rw [Datum.read?, hread]
  rfl

end Json
end Stencil
