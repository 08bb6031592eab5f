import Stencil.Builtin.Escape
import Stencil.Proofs.Reading

/-!
# Data in script source

Escaping a text for an element changes nothing about the datum that a reader takes it for, whoever has
written the text. The reserved characters are replaced in the whole of it. This is safe since they only
occur in strings, where each of them stands for itself and never behind a backslash, so that its
replacement is an escape of its own.
-/

namespace Stencil

namespace Builtin

variable {c : Char} {cs rest signs : List Char} {p : Char → Bool} {n : Nat}

/-- The characters that script source cannot have in an element. -/
def reserved : List Char := ['<', '>', '&', '\u2028', '\u2029']

/-- The characters of escaped script data. -/
def script (cs : List Char) : List Char := cs.flatMap fun c => (escapeScriptChar c).toList

/-- What is left of a text behind a part that has been read, escaped. -/
def scriptBehind {α : Type} (r : α × List Char) : α × List Char := (r.1, script r.2)

/-- Escaping goes character by character. -/
theorem toList_escapeScript (s : String) : (escapeScript s).toList = script s.toList := by
  rw [escapeScript, String.toList_join, List.flatMap_map, script]

/-- Most characters are left as they are. -/
theorem escapeScriptChar_of_not_mem (h : c ∉ reserved) : escapeScriptChar c = c.toString := by
  simp only [reserved, List.mem_cons, List.not_mem_nil, or_false, not_or] at h
  simp [escapeScriptChar, h]

/-- A character that is not reserved is left as it is. -/
theorem script_cons (h : c ∉ reserved) (cs : List Char) : script (c :: cs) = c :: script cs := by
  rw [script, List.flatMap_cons, escapeScriptChar_of_not_mem h, ← script]
  simp

/-- A reserved character is replaced by its number. -/
theorem script_cons_of_mem (h : c ∈ reserved) (cs : List Char) :
    ∃ a b d e, script (c :: cs) = '\\' :: 'u' :: a :: b :: d :: e :: script cs ∧
      Quoted.unit? a b d e = some c.toNat := by
  simp only [reserved, List.mem_cons, List.not_mem_nil, or_false] at h
  rcases h with rfl | rfl | rfl | rfl | rfl <;> exact ⟨_, _, _, _, rfl, by decide⟩

/-- Characters that are not reserved are left as they are. -/
theorem script_append (h : ∀ c ∈ cs, c ∉ reserved) (rest : List Char) :
    script (cs ++ rest) = cs ++ script rest := by
  induction cs with
  | nil => rfl
  | cons c cs ih =>
    obtain ⟨hc, hcs⟩ := List.forall_mem_cons.mp h
    rw [List.cons_append, script_cons hc, ih hcs, List.cons_append]

/-- No reserved character is left. -/
theorem not_mem_reserved_of_mem_script (h : c ∈ script cs) : c ∉ reserved := by
  obtain ⟨d, -, hc⟩ := List.mem_flatMap.mp h
  by_cases hd : d ∈ reserved
  · simp only [reserved, List.mem_cons, List.not_mem_nil, or_false] at hd
    have hcode : ∀ d ∈ reserved, ∀ c ∈ (escapeScriptChar d).toList, c ∉ reserved := by
      simp [reserved, escapeScriptChar]
    exact hcode d (by simpa [reserved] using hd) c hc
  · rw [escapeScriptChar_of_not_mem hd] at hc
    have heq : c = d := by simpa using hc
    exact heq ▸ hd

/-! ### Numerals and names -/

/-- Characters of a kind that has neither reserved characters nor backslashes end where they have ended
before. -/
theorem span_script (hp : ∀ c ∈ '\\' :: reserved, p c = false) (cs : List Char) :
    (script cs).takeWhile p = cs.takeWhile p ∧ (script cs).dropWhile p = script (cs.dropWhile p) := by
  induction cs with
  | nil => exact ⟨rfl, rfl⟩
  | cons c cs ih =>
    by_cases hc : c ∈ reserved
    · obtain ⟨a, b, d, e, hcode, -⟩ := script_cons_of_mem hc cs
      have hfirst : p c = false := hp c (List.mem_cons_of_mem _ hc)
      have hbackslash : p '\\' = false := hp '\\' (List.mem_cons_self ..)
      rw [List.dropWhile_cons_of_neg (by simp [hfirst]), List.takeWhile_cons_of_neg (by simp [hfirst]), hcode]
      exact ⟨List.takeWhile_cons_of_neg (by simp [hbackslash]),
        List.dropWhile_cons_of_neg (by simp [hbackslash])⟩
    · rw [script_cons hc]
      cases hfirst : p c with
      | true =>
        rw [List.takeWhile_cons_of_pos hfirst, List.takeWhile_cons_of_pos hfirst,
          List.dropWhile_cons_of_pos hfirst, List.dropWhile_cons_of_pos hfirst, ih.1]
        exact ⟨rfl, ih.2⟩
      | false =>
        have hnot : ¬p c = true := ne_true_of_eq_false hfirst
        rw [List.takeWhile_cons_of_neg hnot, List.takeWhile_cons_of_neg hnot,
          List.dropWhile_cons_of_neg hnot, List.dropWhile_cons_of_neg hnot, script_cons hc]
        exact ⟨rfl, rfl⟩

/-- Blanks end where they have ended before. -/
theorem skipBlanks_script (cs : List Char) : Datum.skipBlanks (script cs) = script (Datum.skipBlanks cs) :=
  (span_script (by simp [reserved]) cs).2

/-- Digits end where they have ended before. -/
theorem readDigits_script (cs : List Char) :
    Numeral.readDigits (script cs) = (Numeral.readDigits cs).map scriptBehind := by
  obtain ⟨htake, hdrop⟩ := span_script (p := Char.isDigit) (by simp [reserved]) cs
  rw [Numeral.readDigits, Numeral.readDigits, htake, hdrop]
  cases cs.takeWhile Char.isDigit <;> rfl

/-- The first character of a text is of a kind that has neither reserved characters nor backslashes exactly
if it has been before. -/
theorem head_script (hp : ∀ c ∈ '\\' :: reserved, p c = false) (c : Char) (cs : List Char) :
    (p c = true ∧ script (c :: cs) = c :: script cs) ∨
      p c = false ∧ ∃ d ds, script (c :: cs) = d :: ds ∧ p d = false := by
  by_cases hc : c ∈ reserved
  · obtain ⟨a, b, d, e, hcode, -⟩ := script_cons_of_mem hc cs
    exact .inr ⟨hp c (List.mem_cons_of_mem _ hc), _, _, hcode, hp '\\' (List.mem_cons_self ..)⟩
  · cases hfirst : p c with
    | true => exact .inl ⟨rfl, script_cons hc cs⟩
    | false => exact .inr ⟨rfl, c, _, script_cons hc cs, hfirst⟩

/-- A sign is read where one has been read before. -/
theorem readSign_script (hsigns : ∀ c ∈ '\\' :: reserved, c ∉ signs) (cs : List Char) :
    Numeral.readSign signs (script cs) = scriptBehind (Numeral.readSign signs cs) := by
  cases cs with
  | nil => rfl
  | cons c cs =>
    have hp : ∀ c ∈ '\\' :: reserved, decide (c ∈ signs) = false := fun c hc => decide_eq_false (hsigns c hc)
    rcases head_script (p := (· ∈ signs)) hp c cs with ⟨hc, heq⟩ | ⟨hc, d, ds, heq, hd⟩
    · rw [heq, Numeral.readSign, Numeral.readSign, if_pos (of_decide_eq_true hc),
        if_pos (of_decide_eq_true hc)]
      rfl
    · rw [Numeral.readSign, if_neg (of_decide_eq_false hc), scriptBehind, heq, Numeral.readSign,
        if_neg (of_decide_eq_false hd)]

/-- A whole number is read where one has been read before. -/
theorem readWhole_script (cs : List Char) :
    Numeral.readWhole (script cs) = (Numeral.readWhole cs).map scriptBehind := by
  cases cs with
  | nil => rfl
  | cons c cs =>
    rcases head_script (p := (· = '0')) (by simp [reserved]) c cs with ⟨hc, heq⟩ | ⟨hc, d, ds, heq, hd⟩
    · rw [heq, Numeral.readWhole, Numeral.readWhole, if_pos (of_decide_eq_true hc),
        if_pos (of_decide_eq_true hc)]
      rfl
    · rw [heq, Numeral.readWhole, Numeral.readWhole, if_neg (of_decide_eq_false hc),
        if_neg (of_decide_eq_false hd), ← heq, readDigits_script]

/-- A fraction is read where one has been read before. -/
theorem readFraction_script (cs : List Char) :
    Numeral.readFraction (script cs) = (Numeral.readFraction cs).map scriptBehind := by
  cases cs with
  | nil => rfl
  | cons c cs =>
    rcases head_script (p := (· = '.')) (by simp [reserved]) c cs with ⟨hc, heq⟩ | ⟨hc, d, ds, heq, hd⟩
    · rw [heq, Numeral.readFraction, Numeral.readFraction, if_pos (of_decide_eq_true hc),
        if_pos (of_decide_eq_true hc), readDigits_script]
      cases Numeral.readDigits cs <;> rfl
    · rw [heq, Numeral.readFraction, Numeral.readFraction, if_neg (of_decide_eq_false hc),
        if_neg (of_decide_eq_false hd), ← heq]
      rfl

/-- An exponent is read where one has been read before. -/
theorem readExponent_script (cs : List Char) :
    Numeral.readExponent (script cs) = (Numeral.readExponent cs).map scriptBehind := by
  cases cs with
  | nil => rfl
  | cons c cs =>
    rcases head_script (p := fun c => c = 'e' ∨ c = 'E') (by simp [reserved]) c cs with
      ⟨hc, heq⟩ | ⟨hc, d, ds, heq, hd⟩
    · rw [heq, Numeral.readExponent, Numeral.readExponent, if_pos (of_decide_eq_true hc),
        if_pos (of_decide_eq_true hc), readSign_script (by simp [reserved])]
      obtain ⟨sign, rest⟩ := Numeral.readSign ['+', '-'] cs
      dsimp only [scriptBehind]
      rw [readDigits_script]
      cases Numeral.readDigits rest <;> rfl
    · rw [heq, Numeral.readExponent, Numeral.readExponent, if_neg (of_decide_eq_false hc),
        if_neg (of_decide_eq_false hd), ← heq]
      rfl

/-- A numeral is read where one has been read before. -/
theorem readNumeral_script (cs : List Char) :
    Numeral.read (script cs) = (Numeral.read cs).map scriptBehind := by
  rw [Numeral.read, Numeral.read, readSign_script (by simp [reserved])]
  obtain ⟨sign, rest⟩ := Numeral.readSign ['-'] cs
  dsimp only [scriptBehind]
  rw [readWhole_script]
  obtain _ | ⟨whole, rest⟩ := Numeral.readWhole rest
  · rfl
  dsimp only [Option.map_some, Option.bind_eq_bind, Option.bind_some, scriptBehind]
  rw [readFraction_script]
  obtain _ | ⟨fraction, rest⟩ := Numeral.readFraction rest
  · rfl
  dsimp only [Option.map_some, Option.bind_some, scriptBehind]
  rw [readExponent_script]
  cases Numeral.readExponent rest <;> rfl

/-! ### Readers -/

/-- Whether a reader takes an escaped text for what another reader takes the text for, and leaves what the
other reader leaves. The readers differ in their fuel only. -/
def Follows {α : Type} (reader' reader : List Char → Option (α × List Char)) : Prop :=
  ∀ cs a rest, reader cs = some (a, rest) → reader' (script cs) = some (a, script rest)

/-- Reserved characters are no digits. -/
theorem hexDigit?_eq_none : ∀ c ∈ reserved, Quoted.hexDigit? c = none := by
  simp [reserved, Quoted.hexDigit?]

/-- Digits are left as they are. -/
theorem not_mem_reserved_of_hexDigit? {n : Nat} (h : Quoted.hexDigit? c = some n) : c ∉ reserved := by
  intro hc
  rw [hexDigit?_eq_none c hc] at h
  cases h

/-- Digits that are read are left as they are. -/
theorem script_unit {a b d e : Char} (h : Quoted.unit? a b d e = some n) (cs : List Char) :
    script (a :: b :: d :: e :: cs) = a :: b :: d :: e :: script cs := by
  obtain ⟨_, ha, h⟩ := Option.bind_eq_some_iff.mp h
  obtain ⟨_, hb, h⟩ := Option.bind_eq_some_iff.mp h
  obtain ⟨_, hd, h⟩ := Option.bind_eq_some_iff.mp h
  obtain ⟨_, he, -⟩ := Option.bind_eq_some_iff.mp h
  rw [script_cons (not_mem_reserved_of_hexDigit? ha), script_cons (not_mem_reserved_of_hexDigit? hb),
    script_cons (not_mem_reserved_of_hexDigit? hd), script_cons (not_mem_reserved_of_hexDigit? he)]

/-- The number of a character has no reserved characters. -/
theorem readUnit_follows : Follows Quoted.readUnit Quoted.readUnit := by
  intro cs n rest h
  match cs, h with
  | a :: b :: d :: e :: cs, h =>
    obtain ⟨k, hunit, heq⟩ := Option.map_eq_some_iff.mp h
    cases heq
    rw [script_unit hunit, Quoted.readUnit, hunit]
    rfl

/-- A character is told by the same number, which may have two parts. -/
theorem readNumber_follows : Follows Quoted.readNumber Quoted.readNumber := by
  intro cs c rest h
  obtain ⟨⟨high, behind⟩, hhigh, h⟩ := Option.bind_eq_some_iff.mp h
  rw [Quoted.readNumber, readUnit_follows _ _ _ hhigh, Option.bind_eq_bind, Option.bind_some]
  dsimp only at h ⊢
  split at h
  · next hsingle =>
    cases h
    exact if_pos hsingle
  next hsingle =>
  rw [if_neg hsingle]
  split at h
  · next hfirst =>
    rw [if_pos hfirst]
    split at h
    · obtain ⟨⟨low, behind⟩, hlow, h⟩ := Option.bind_eq_some_iff.mp h
      rw [script_cons (by decide), script_cons (by decide)]
      refine Option.bind_eq_some_iff.mpr ⟨_, readUnit_follows _ _ _ hlow, ?_⟩
      dsimp only at h ⊢
      split at h
      · next hsecond =>
        rw [Option.pure_def, Option.some.injEq, Prod.mk.injEq] at h
        obtain ⟨rfl, rfl⟩ := h
        exact if_pos hsecond
      · cases h
    · cases h
  · cases h

/-- No reserved character may follow a backslash. -/
theorem escaped?_eq_none : ∀ c ∈ reserved, Quoted.escaped? c = none := by
  simp [reserved, Quoted.escaped?]

/-- A character is read where it has been read before, or else its number is. -/
theorem readChar_follows : Follows Quoted.readChar Quoted.readChar := by
  intro cs c rest h
  unfold Quoted.readChar at h
  split at h
  · cases h
  · rw [script_cons (by decide), script_cons (by decide)]
    exact readNumber_follows _ _ _ h
  · next d cs hd =>
    obtain ⟨_, hescaped, heq⟩ := Option.map_eq_some_iff.mp h
    cases heq
    have hplain : d ∉ reserved := by
      intro hmem
      rw [escaped?_eq_none d hmem] at hescaped
      cases hescaped
    rw [script_cons (by decide), script_cons hplain, Quoted.readChar.eq_3, hescaped]
    · rfl
    · exact hd
  · split at h
    · cases h
    next d cs _ _ hd =>
    cases h
    by_cases hmem : c ∈ reserved
    · obtain ⟨a, b, d, e, hcode, hunit⟩ := script_cons_of_mem hmem rest
      rw [hcode]
      exact Quoted.readChar_number hunit _
    · simp only [not_or, Nat.not_lt] at hd
      rw [script_cons hmem]
      exact Quoted.readChar_self hd.1 hd.2.1 hd.2.2 _

/-- A string is read where one has been read before. -/
theorem readChars_follows {fuel more : Nat} (hle : fuel ≤ more) :
    Follows (Quoted.readChars more) (Quoted.readChars fuel) := by
  induction fuel generalizing more with
  | zero => exact nofun
  | succ fuel ih =>
    obtain ⟨more, rfl⟩ := Nat.exists_eq_add_of_lt hle
    intro cs s rest h
    unfold Quoted.readChars at h
    split at h
    · cases h
    · cases h
      rw [script_cons (by decide)]
      rfl
    · next heq _ =>
      cases heq
      obtain ⟨⟨c, behind⟩, hc, h⟩ := Option.bind_eq_some_iff.mp h
      obtain ⟨⟨s, behind⟩, hs, h⟩ := Option.bind_eq_some_iff.mp h
      cases h
      exact Quoted.readChars_of_readChar (readChar_follows _ _ _ hc) (ih (by omega) _ _ _ hs)

/-- A name is read where it has been read before. -/
theorem readName_follows {name : String} (hname : ∀ c ∈ name.toList, c ∉ reserved) (d : Datum) :
    Follows (Datum.readName name d) (Datum.readName name d) := by
  intro cs a rest h
  rw [Datum.readName] at h
  split at h
  · next hprefix =>
    cases h
    obtain ⟨t, rfl⟩ := List.isPrefixOf_iff_prefix.mp hprefix
    rw [script_append hname, Datum.readName, if_pos (List.isPrefixOf_iff_prefix.mpr ⟨_, rfl⟩),
      ← String.length_toList, List.drop_left, List.drop_left]
  · cases h

/-- A key is read where one has been read before. -/
theorem readKey_follows {fuel more : Nat} (hle : fuel ≤ more) :
    Follows (Datum.readKey more) (Datum.readKey fuel) := by
  intro cs key rest h
  unfold Datum.readKey at h
  split at h
  · obtain ⟨⟨s, behind⟩, hs, h⟩ := Option.bind_eq_some_iff.mp h
    rw [script_cons (by decide), Datum.readKey, readChars_follows hle _ _ _ hs]
    dsimp only at h
    rw [Option.bind_eq_bind, Option.bind_some]
    dsimp only
    rw [skipBlanks_script]
    split at h
    · next heq =>
      cases h
      rw [heq, script_cons (by decide)]
      rfl
    · cases h
  · cases h

/-- Whether data, items and members are read with some fuel where they have been read with less. -/
structure FollowsWith (more fuel : Nat) : Prop where
  data : Follows (Datum.read more) (Datum.read fuel)
  items : Follows (Datum.readItems more) (Datum.readItems fuel)
  members : Follows (Datum.readMembers more) (Datum.readMembers fuel)

variable {fuel more : Nat}

/-- A datum is read where one has been read before, if its parts are. -/
theorem read_follows (h : FollowsWith more fuel) (hle : fuel ≤ more) :
    Follows (Datum.read (more + 1)) (Datum.read (fuel + 1)) := by
  intro cs d rest hread
  rw [← Datum.read_skipBlanks, skipBlanks_script]
  rw [Datum.read] at hread
  generalize hfirst : Datum.skipBlanks cs = first at hread ⊢
  -- One case for each way a datum starts, and the last for the numerals.
  split at hread
  · obtain ⟨⟨s, behind⟩, hs, hd⟩ := Option.map_eq_some_iff.mp hread
    cases hd
    rw [script_cons (by decide)]
    exact Datum.read_string (readChars_follows hle _ _ _ hs)
  · rw [script_cons (by decide)]
    split at hread
    · next hend =>
      cases hread
      refine Datum.read_array_nil ?_ more
      rw [skipBlanks_script, hend, script_cons (by decide)]
    · obtain ⟨⟨items, behind⟩, hitems, hd⟩ := Option.map_eq_some_iff.mp hread
      cases hd
      exact Datum.read_array (h.items _ _ _ hitems)
  · rw [script_cons (by decide)]
    split at hread
    · next hend =>
      cases hread
      refine Datum.read_object_nil ?_ more
      rw [skipBlanks_script, hend, script_cons (by decide)]
    · obtain ⟨⟨members, behind⟩, hmembers, hd⟩ := Option.map_eq_some_iff.mp hread
      cases hd
      exact Datum.read_object (h.members _ _ _ hmembers)
  · rw [script_cons (by decide)]
    exact readName_follows (by simp [reserved]) _ _ _ _ hread
  · rw [script_cons (by decide)]
    exact readName_follows (by simp [reserved]) _ _ _ _ hread
  · rw [script_cons (by decide)]
    exact readName_follows (by simp [reserved]) _ _ _ _ hread
  · obtain ⟨⟨ds, behind⟩, hds, hd⟩ := Option.map_eq_some_iff.mp hread
    cases hd
    refine Datum.read_eq_number ?_ more
    rw [skipBlanks_script, ← hfirst, Datum.skipBlanks_skipBlanks, hfirst, readNumeral_script, hds]
    rfl

/-- Items are read where they have been read before, if each of them is. -/
theorem readItems_follows (h : FollowsWith more fuel) :
    Follows (Datum.readItems (more + 1)) (Datum.readItems (fuel + 1)) := by
  intro cs items rest hread
  rw [Datum.readItems] at hread
  obtain ⟨⟨d, behind⟩, hd, hread⟩ := Option.bind_eq_some_iff.mp hread
  rw [Datum.readItems, h.data _ _ _ hd, Option.bind_eq_bind, Option.bind_some]
  dsimp only at hread ⊢
  rw [skipBlanks_script]
  split at hread
  · next heq =>
    cases hread
    rw [heq, script_cons (by decide)]
    rfl
  · next heq =>
    obtain ⟨⟨ds, behind⟩, hds, hread⟩ := Option.bind_eq_some_iff.mp hread
    cases hread
    rw [heq, script_cons (by decide)]
    exact Option.bind_eq_some_iff.mpr ⟨_, h.items _ _ _ hds, rfl⟩
  · cases hread

/-- Members are read where they have been read before, if each of them is. -/
theorem readMembers_follows (h : FollowsWith more fuel) (hle : fuel ≤ more) :
    Follows (Datum.readMembers (more + 1)) (Datum.readMembers (fuel + 1)) := by
  intro cs members rest hread
  rw [Datum.readMembers] at hread
  obtain ⟨⟨key, behind⟩, hkey, hread⟩ := Option.bind_eq_some_iff.mp hread
  obtain ⟨⟨d, behind⟩, hd, hread⟩ := Option.bind_eq_some_iff.mp hread
  rw [Datum.readMembers, skipBlanks_script, readKey_follows hle _ _ _ hkey, Option.bind_eq_bind,
    Option.bind_some]
  dsimp only at hd hread ⊢
  rw [h.data _ _ _ hd, Option.bind_eq_bind, Option.bind_some]
  dsimp only
  rw [skipBlanks_script]
  split at hread
  · next heq =>
    cases hread
    rw [heq, script_cons (by decide)]
    rfl
  · next heq =>
    obtain ⟨⟨ds, behind⟩, hds, hread⟩ := Option.bind_eq_some_iff.mp hread
    cases hread
    rw [heq, script_cons (by decide)]
    exact Option.bind_eq_some_iff.mpr ⟨_, h.members _ _ _ hds, rfl⟩
  · cases hread

/-- More fuel does no harm, and neither does escaping. -/
theorem followsWith (hle : fuel ≤ more) : FollowsWith more fuel := by
  induction fuel generalizing more with
  | zero => exact ⟨nofun, nofun, nofun⟩
  | succ fuel ih =>
    obtain ⟨more, rfl⟩ := Nat.exists_eq_add_of_le' hle
    have h : FollowsWith (more + fuel) fuel := ih (Nat.le_add_left ..)
    have hle : fuel ≤ more + fuel := Nat.le_add_left ..
    exact ⟨read_follows h hle, readItems_follows h, readMembers_follows h hle⟩

/-- Escaping makes no text shorter. -/
theorem length_le_length_script (cs : List Char) : cs.length ≤ (script cs).length := by
  induction cs with
  | nil => exact Nat.le_refl 0
  | cons c cs ih =>
    by_cases hc : c ∈ reserved
    · obtain ⟨a, b, d, e, hcode, -⟩ := script_cons_of_mem hc cs
      rw [hcode]
      simp only [List.length_cons]
      omega
    · rw [script_cons hc]
      exact Nat.succ_le_succ ih

/-- A reader takes the escaped text for the datum that it takes the text for. -/
theorem read?_escapeScript {text : String} {d : Datum} (h : Datum.read? text = some d) :
    Datum.read? (escapeScript text) = some d := by
  obtain ⟨⟨d, rest⟩, hread, hend⟩ := Option.bind_eq_some_iff.mp h
  have hlength : text.length + 1 ≤ (escapeScript text).length + 1 := by
    rw [← String.length_toList, ← String.length_toList, toList_escapeScript]
    exact Nat.succ_le_succ (length_le_length_script _)
  have hescaped := (followsWith hlength).data _ _ _ hread
  rw [← toList_escapeScript] at hescaped
  refine Option.bind_eq_some_iff.mpr ⟨_, hescaped, ?_⟩
  dsimp only at hend ⊢
  split at hend
  · next hempty =>
    rw [skipBlanks_script, List.isEmpty_iff.mp hempty]
    exact hend
  · cases hend

end Builtin
end Stencil
