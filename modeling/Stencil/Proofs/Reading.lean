import Stencil.Proofs.Numerals

/-!
# Reading script data

A reader of script data that takes nothing else: blanks only between its parts, escapes in strings only as
they are defined, no control characters in strings, no needless zeros and nothing behind the datum. Members
of objects are kept in the order of the text, and numbers as they are written.
-/

namespace Stencil

/-- A datum as a text tells it. -/
inductive Datum where
  | null
  | bool (b : Bool)
  | number (text : String)
  | string (s : String)
  | array (items : List Datum)
  | object (members : List (String × Datum))

/-! ### Numerals -/

namespace Numeral

/-- Read digits, at least one. -/
def readDigits (cs : List Char) : Option (List Char × List Char) :=
  match cs.takeWhile Char.isDigit with
  | [] => none
  | d :: ds => some (d :: ds, cs.dropWhile Char.isDigit)

/-- Read one of the signs, if there is one. -/
def readSign (signs : List Char) : List Char → List Char × List Char
  | [] => ([], [])
  | c :: rest => if c ∈ signs then ([c], rest) else ([], c :: rest)

/-- Read a whole number. -/
def readWhole : List Char → Option (List Char × List Char)
  | [] => none
  | c :: rest => if c = '0' then some (['0'], rest) else readDigits (c :: rest)

/-- Read a fraction, if there is one. -/
def readFraction : List Char → Option (List Char × List Char)
  | [] => some ([], [])
  | c :: rest =>
    if c = '.' then (readDigits rest).map fun (ds, rest) => ('.' :: ds, rest) else some ([], c :: rest)

/-- Read an exponent, if there is one. -/
def readExponent : List Char → Option (List Char × List Char)
  | [] => some ([], [])
  | c :: rest =>
    if c = 'e' ∨ c = 'E' then
      let (sign, rest) := readSign ['+', '-'] rest
      (readDigits rest).map fun (ds, rest) => (c :: (sign ++ ds), rest)
    else some ([], c :: rest)

/-- Read a numeral. -/
def read (cs : List Char) : Option (List Char × List Char) := do
  let (sign, rest) := readSign ['-'] cs
  let (whole, rest) ← readWhole rest
  let (fraction, rest) ← readFraction rest
  let (exponent, rest) ← readExponent rest
  return (sign ++ (whole ++ (fraction ++ exponent)), rest)

variable {cs ds sign whole fraction exponent rest signs : List Char} {p : Char → Bool}

/-- Whether a text does not start with a character of a kind. -/
def Avoids (p : Char → Bool) (cs : List Char) : Prop := ∀ c ∈ cs.head?, p c = false

/-- Whether a text can stand behind a datum, since it ends or goes on with what is not part of one. -/
def Closes (rest : List Char) : Prop := ∀ c ∈ rest.head?, c ∈ [',', ']', '\x7d']

/-- A text that does not start with a character of a kind can have another such text behind it. -/
theorem avoids_append (hds : Avoids p ds) (hrest : Avoids p rest) : Avoids p (ds ++ rest) := by
  cases ds with
  | nil => exact hrest
  | cons d ds => exact hds

/-- Digits are read up to what is no digit. -/
theorem readDigits_append (hne : ds ≠ []) (hdigits : ∀ c ∈ ds, c.isDigit)
    (hrest : Avoids Char.isDigit rest) : readDigits (ds ++ rest) = some (ds, rest) := by
  have htake : rest.takeWhile Char.isDigit = [] := by
    cases rest with
    | nil => rfl
    | cons c rest => simp [hrest c rfl]
  have hdrop : rest.dropWhile Char.isDigit = rest := by
    cases rest with
    | nil => rfl
    | cons c rest => simp [hrest c rfl]
  rw [readDigits, List.takeWhile_append_of_pos hdigits, List.dropWhile_append_of_pos hdigits, htake, hdrop,
    List.append_nil]
  cases ds with
  | nil => exact absurd rfl hne
  | cons d ds => rfl

/-- A sign is read where there is one. -/
theorem readSign_append (hsign : sign = [] ∨ ∃ c ∈ signs, sign = [c])
    (hrest : Avoids (· ∈ signs) rest) : readSign signs (sign ++ rest) = (sign, rest) := by
  rcases hsign with rfl | ⟨c, hc, rfl⟩
  · cases rest with
    | nil => rfl
    | cons c rest =>
      have hc : c ∉ signs := by simpa using hrest c rfl
      exact if_neg hc
  · exact if_pos hc

/-- A fraction does not start with what is no point. -/
theorem IsFraction.avoids (h : IsFraction fraction) (hp : p '.' = false) :
    Avoids p fraction := by
  cases h with
  | none => exact nofun
  | digits => rintro _ ⟨⟩; exact hp

/-- An exponent does not start with what is no letter of an exponent. -/
theorem IsExponent.avoids (h : IsExponent exponent) (he : p 'e' = false)
    (hE : p 'E' = false) : Avoids p exponent := by
  cases h with
  | none => exact nofun
  | digits hletter => rintro _ ⟨⟩; rcases hletter with rfl | rfl <;> assumption

/-- Digits do not start with a sign. -/
theorem avoids_signs (hsigns : ∀ c ∈ signs, c.isDigit = false) (hne : ds ≠ [])
    (hdigits : ∀ c ∈ ds, c.isDigit) (rest : List Char) : Avoids (· ∈ signs) (ds ++ rest) := by
  cases ds with
  | nil => exact absurd rfl hne
  | cons d ds =>
    rintro _ ⟨⟩
    refine decide_eq_false fun hmem => ?_
    have hdigit := hsigns d hmem
    rw [hdigits d List.mem_cons_self] at hdigit
    cases hdigit

/-- What closes a datum does not start with a part of one. -/
theorem Closes.avoids (h : Closes rest) (hp : ∀ c ∈ [',', ']', '\x7d'], p c = false) :
    Avoids p rest := fun c hc => hp c (h c hc)

/-- A whole number is read up to what is no digit. -/
theorem readWhole_append (h : IsWhole whole) (hrest : Avoids Char.isDigit rest) :
    readWhole (whole ++ rest) = some (whole, rest) := by
  cases h with
  | zero => rfl
  | digits hzero hdigits =>
    exact (if_neg hzero).trans (readDigits_append (List.cons_ne_nil _ _) hdigits hrest)

/-- A fraction is read up to what is neither a digit nor a point. -/
theorem readFraction_append (h : IsFraction fraction) (hdigit : Avoids Char.isDigit rest)
    (hpoint : Avoids (· = '.') rest) : readFraction (fraction ++ rest) = some (fraction, rest) := by
  cases h with
  | none =>
    cases rest with
    | nil => rfl
    | cons c rest =>
      have hc : c ≠ '.' := by simpa using hpoint c rfl
      exact if_neg hc
  | digits hne hdigits =>
    rw [List.cons_append, readFraction, if_pos rfl, readDigits_append hne hdigits hdigit]
    rfl

/-- An exponent is read up to what is neither a digit nor a letter. -/
theorem readExponent_append (h : IsExponent exponent) (hdigit : Avoids Char.isDigit rest)
    (hletter : Avoids (fun c => c = 'e' ∨ c = 'E') rest) :
    readExponent (exponent ++ rest) = some (exponent, rest) := by
  cases h with
  | none =>
    cases rest with
    | nil => rfl
    | cons c rest =>
      have hc : ¬ (c = 'e' ∨ c = 'E') := by simpa using hletter c rfl
      exact if_neg hc
  | @digits letter sign ds hletter hsign hne hdigits =>
    have hsigns : sign = [] ∨ ∃ c ∈ ['+', '-'], sign = [c] := by simpa using hsign
    have hsign := readSign_append hsigns (avoids_signs (by simp) hne hdigits rest)
    rw [List.cons_append, readExponent, if_pos hletter, List.append_assoc, hsign]
    dsimp only
    rw [readDigits_append hne hdigits hdigit]
    rfl

/-- A numeral is read up to its end. -/
theorem read_append (h : Is cs) (hrest : Closes rest) : read (cs ++ rest) = some (cs, rest) := by
  obtain ⟨sign, whole, fraction, exponent, rfl, h⟩ := h
  have hsigns : sign = [] ∨ ∃ c ∈ ['-'], sign = [c] := by simpa using h.sign
  have hsign := readSign_append hsigns (avoids_signs (by simp) h.whole.ne_nil
    (fun c hc => h.whole.isDigit hc) (fraction ++ (exponent ++ rest)))
  have hwhole : readWhole (whole ++ (fraction ++ (exponent ++ rest))) =
      some (whole, fraction ++ (exponent ++ rest)) :=
    readWhole_append h.whole (avoids_append (h.fraction.avoids rfl)
      (avoids_append (h.exponent.avoids rfl rfl) (hrest.avoids (by simp))))
  have hfraction : readFraction (fraction ++ (exponent ++ rest)) = some (fraction, exponent ++ rest) :=
    readFraction_append h.fraction
      (avoids_append (h.exponent.avoids rfl rfl) (hrest.avoids (by simp)))
      (avoids_append (h.exponent.avoids rfl rfl) (hrest.avoids (by simp)))
  have hexponent : readExponent (exponent ++ rest) = some (exponent, rest) :=
    readExponent_append h.exponent (hrest.avoids (by simp)) (hrest.avoids (by simp))
  simp only [List.append_assoc, read, hsign, hwhole, hfraction, hexponent, Option.bind_eq_bind,
    Option.bind_some, Option.pure_def]

end Numeral

/-! ### Strings -/

namespace Quoted

/-- What a hexadecimal digit stands for. -/
def hexDigit? (c : Char) : Option Nat :=
  if c.isDigit then some (c.toNat - 48)
  else if 97 ≤ c.toNat ∧ c.toNat ≤ 102 then some (c.toNat - 87)
  else if 65 ≤ c.toNat ∧ c.toNat ≤ 70 then some (c.toNat - 55)
  else none

/-- What four hexadecimal digits stand for. -/
def unit? (a b c d : Char) : Option Nat := do
  return 4096 * (← hexDigit? a) + 256 * (← hexDigit? b) + 16 * (← hexDigit? c) + (← hexDigit? d)

/-- Read a number of four hexadecimal digits. -/
def readUnit : List Char → Option (Nat × List Char)
  | a :: b :: c :: d :: rest => (unit? a b c d).map (·, rest)
  | _ => none

/-- Read the number of a character, which has two parts if it is a large one. -/
def readNumber (cs : List Char) : Option (Char × List Char) := do
  let (high, rest) ← readUnit cs
  if high < 0xD800 ∨ 0xE000 ≤ high then return (Char.ofNat high, rest)
  else if high < 0xDC00 then
    match rest with
    | '\\' :: 'u' :: rest =>
      let (low, rest) ← readUnit rest
      if 0xDC00 ≤ low ∧ low < 0xE000 then
        return (Char.ofNat (0x10000 + 1024 * (high - 0xD800) + (low - 0xDC00)), rest)
      else none
    | _ => none
  else none

/-- The character that another one stands for behind a backslash. -/
def escaped? (c : Char) : Option Char :=
  if c = '"' ∨ c = '\\' ∨ c = '/' then some c
  else if c = 'b' then some '\x08'
  else if c = 't' then some '\t'
  else if c = 'n' then some '\n'
  else if c = 'f' then some '\x0c'
  else if c = 'r' then some '\r'
  else none

/-- Read one character of a string. -/
def readChar : List Char → Option (Char × List Char)
  | [] => none
  | '\\' :: 'u' :: rest => readNumber rest
  | '\\' :: c :: rest => (escaped? c).map (·, rest)
  | c :: rest => if c = '"' ∨ c = '\\' ∨ c.toNat < 0x20 then none else some (c, rest)

/-- Read the characters of a string and the quote behind them. Since each step takes a character, more
fuel than characters is enough, here and below. -/
def readChars : Nat → List Char → Option (List Char × List Char)
  | 0, _ => none
  | _ + 1, '"' :: rest => some ([], rest)
  | fuel + 1, cs => do
    let (c, rest) ← readChar cs
    let (s, rest) ← readChars fuel rest
    return (c :: s, rest)

variable {cs rest rest' s : List Char} {c : Char} {fuel : Nat}

/-- A character that needs no escape stands for itself. -/
theorem readChar_self (hquote : c ≠ '"') (hbackslash : c ≠ '\\') (hcontrol : 0x20 ≤ c.toNat)
    (rest : List Char) : readChar (c :: rest) = some (c, rest) := by
  have hplain : ¬ (c = '"' ∨ c = '\\' ∨ c.toNat < 0x20) := by simp [hquote, hbackslash, hcontrol]
  rw [readChar, if_neg hplain]
  · exact fun _ heq => absurd heq hbackslash
  · exact fun _ _ heq => absurd heq hbackslash

/-- A character may be told by its number. -/
theorem readChar_number {a b d e : Char} (h : unit? a b d e = some c.toNat) (rest : List Char) :
    readChar ('\\' :: 'u' :: a :: b :: d :: e :: rest) = some (c, rest) := by
  have hvalid : c.toNat < 0xD800 ∨ 0xE000 ≤ c.toNat := c.valid.imp_right And.left
  rw [readChar, readNumber, readUnit, h]
  simp [hvalid]

/-- A character can be put in front of a string. -/
theorem readChars_of_readChar (hc : readChar cs = some (c, rest))
    (hs : readChars fuel rest = some (s, rest')) : readChars (fuel + 1) cs = some (c :: s, rest') := by
  have hquote : ∀ rest, cs ≠ '"' :: rest := by
    rintro rest rfl
    cases hc
  rw [readChars.eq_3 cs fuel hquote, hc, Option.bind_eq_bind, Option.bind_some]
  dsimp only
  rw [hs]
  rfl

end Quoted

/-! ### Data -/

namespace Datum

/-- What is left of a text behind blanks. -/
def skipBlanks (cs : List Char) : List Char := cs.dropWhile (· ∈ [' ', '\t', '\n', '\r'])

/-- Read a name that stands for a datum. -/
def readName (name : String) (d : Datum) (cs : List Char) : Option (Datum × List Char) :=
  if name.toList.isPrefixOf cs then some (d, cs.drop name.length) else none

/-- Read the key of a member and the colon behind it. -/
def readKey (fuel : Nat) : List Char → Option (String × List Char)
  | '"' :: rest => do
    let (key, rest) ← Quoted.readChars fuel rest
    match skipBlanks rest with
    | ':' :: rest => return (String.ofList key, rest)
    | _ => none
  | _ => none

mutual

/-- Read a datum. -/
def read : Nat → List Char → Option (Datum × List Char)
  | 0, _ => none
  | fuel + 1, cs =>
    match skipBlanks cs with
    | '"' :: rest => (Quoted.readChars fuel rest).map fun (s, rest) => (string (String.ofList s), rest)
    | '[' :: rest =>
      match skipBlanks rest with
      | ']' :: rest => some (array [], rest)
      | _ => (readItems fuel rest).map fun (items, rest) => (array items, rest)
    | '\x7b' :: rest =>
      match skipBlanks rest with
      | '\x7d' :: rest => some (object [], rest)
      | _ => (readMembers fuel rest).map fun (members, rest) => (object members, rest)
    | 'n' :: rest => readName "ull" null rest
    | 't' :: rest => readName "rue" (bool true) rest
    | 'f' :: rest => readName "alse" (bool false) rest
    | cs => (Numeral.read cs).map fun (text, rest) => (number (String.ofList text), rest)

/-- Read data with commas between them and the bracket behind them. -/
def readItems : Nat → List Char → Option (List Datum × List Char)
  | 0, _ => none
  | fuel + 1, cs => do
    let (d, rest) ← read fuel cs
    match skipBlanks rest with
    | ']' :: rest => return ([d], rest)
    | ',' :: rest =>
      let (items, rest) ← readItems fuel rest
      return (d :: items, rest)
    | _ => none

/-- Read members of an object with commas between them and the brace behind them. -/
def readMembers : Nat → List Char → Option (List (String × Datum) × List Char)
  | 0, _ => none
  | fuel + 1, cs => do
    let (key, rest) ← readKey fuel (skipBlanks cs)
    let (d, rest) ← read fuel rest
    match skipBlanks rest with
    | '\x7d' :: rest => return ([(key, d)], rest)
    | ',' :: rest =>
      let (members, rest) ← readMembers fuel rest
      return ((key, d) :: members, rest)
    | _ => none

end

/-- The datum that is told by the whole of a text. -/
def read? (text : String) : Option Datum := do
  let (d, rest) ← read (text.length + 1) text.toList
  if (skipBlanks rest).isEmpty then return d else none

variable {fuel : Nat} {c : Char} {cs rest rest' s : List Char} {key : String} {d : Datum} {items : List Datum}
  {members : List (String × Datum)}

/-- Nothing is skipped in front of what is no blank. -/
theorem skipBlanks_cons (h : c ∉ [' ', '\t', '\n', '\r']) (rest : List Char) :
    skipBlanks (c :: rest) = c :: rest :=
  List.dropWhile_cons_of_neg (by simpa using h)

/-- Behind blanks there are no more blanks. -/
theorem skipBlanks_skipBlanks (cs : List Char) : skipBlanks (skipBlanks cs) = skipBlanks cs := by
  induction cs with
  | nil => rfl
  | cons c cs ih =>
    by_cases hc : c ∈ [' ', '\t', '\n', '\r']
    · have hskip : skipBlanks (c :: cs) = skipBlanks cs := List.dropWhile_cons_of_pos (decide_eq_true hc)
      rw [hskip, ih]
    · rw [skipBlanks_cons hc, skipBlanks_cons hc]

/-- Blanks in front of a datum are skipped. -/
theorem read_skipBlanks (fuel : Nat) (cs : List Char) : read fuel (skipBlanks cs) = read fuel cs := by
  cases fuel with
  | zero => rfl
  | succ fuel => rw [read, read, skipBlanks_skipBlanks]

/-- A string is read behind its quote. -/
theorem read_string (h : Quoted.readChars fuel cs = some (s, rest)) :
    read (fuel + 1) ('"' :: cs) = some (string (String.ofList s), rest) := by
  have hread : read (fuel + 1) ('"' :: cs) =
      (Quoted.readChars fuel cs).map fun r => (string (String.ofList r.1), r.2) := rfl
  rw [hread, h]
  rfl

/-- Where a numeral can be read, a datum is read as a number. -/
theorem read_eq_number {ds : List Char} (h : Numeral.read (skipBlanks cs) = some (ds, rest)) (fuel : Nat) :
    read (fuel + 1) cs = some (number (String.ofList ds), rest) := by
  rw [read]
  split
  case h_7 =>
    rw [h]
    rfl
  all_goals
    next heq =>
    rw [heq] at h
    cases h

/-- A numeral is read up to what closes it. -/
theorem read_number (h : Numeral.Is cs) (hrest : Numeral.Closes rest) (fuel : Nat) :
    read (fuel + 1) (cs ++ rest) = some (number (String.ofList cs), rest) := by
  have hread := Numeral.read_append h hrest
  obtain ⟨c, cs, rfl, hc⟩ := h.exists_eq_cons
  have hblank : c ∉ [' ', '\t', '\n', '\r'] := by
    rintro hmem
    simp only [List.mem_cons, List.not_mem_nil, or_false] at hmem
    rcases hmem with rfl | rfl | rfl | rfl <;> revert hc <;> decide
  refine read_eq_number ?_ fuel
  rw [List.cons_append, skipBlanks_cons hblank, ← List.cons_append, hread]

/-- Nothing can be read where an array ends. -/
theorem readItems_of_bracket (h : skipBlanks cs = ']' :: rest) (fuel : Nat) : readItems fuel cs = none := by
  have hread (fuel : Nat) : read fuel cs = none := by
    cases fuel with
    | zero => rfl
    | succ fuel => rw [read, h]; rfl
  cases fuel with
  | zero => rfl
  | succ fuel => rw [readItems, hread]; rfl

/-- Nothing can be read where an object ends. -/
theorem readMembers_of_brace (h : skipBlanks cs = '\x7d' :: rest) (fuel : Nat) :
    readMembers fuel cs = none := by
  cases fuel with
  | zero => rfl
  | succ fuel => rw [readMembers, h]; rfl

/-- An array may be empty. -/
theorem read_array_nil (h : skipBlanks cs = ']' :: rest) (fuel : Nat) :
    read (fuel + 1) ('[' :: cs) = some (array [], rest) := by
  have hread : read (fuel + 1) ('[' :: cs) =
      match skipBlanks cs with
      | ']' :: rest => some (array [], rest)
      | _ => (readItems fuel cs).map fun r => (array r.1, r.2) := rfl
  rw [hread, h]
  rfl

/-- An object may be empty. -/
theorem read_object_nil (h : skipBlanks cs = '\x7d' :: rest) (fuel : Nat) :
    read (fuel + 1) ('\x7b' :: cs) = some (object [], rest) := by
  have hread : read (fuel + 1) ('\x7b' :: cs) =
      match skipBlanks cs with
      | '\x7d' :: rest => some (object [], rest)
      | _ => (readMembers fuel cs).map fun r => (object r.1, r.2) := rfl
  rw [hread, h]
  rfl

/-- An array is read item by item. -/
theorem read_array (h : readItems fuel cs = some (items, rest)) :
    read (fuel + 1) ('[' :: cs) = some (array items, rest) := by
  have hread : read (fuel + 1) ('[' :: cs) =
      match skipBlanks cs with
      | ']' :: rest => some (array [], rest)
      | _ => (readItems fuel cs).map fun r => (array r.1, r.2) := rfl
  rw [hread]
  split
  · next hbracket =>
    rw [readItems_of_bracket hbracket] at h
    cases h
  · rw [h]
    rfl

/-- An object is read member by member. -/
theorem read_object (h : readMembers fuel cs = some (members, rest)) :
    read (fuel + 1) ('\x7b' :: cs) = some (object members, rest) := by
  have hread : read (fuel + 1) ('\x7b' :: cs) =
      match skipBlanks cs with
      | '\x7d' :: rest => some (object [], rest)
      | _ => (readMembers fuel cs).map fun r => (object r.1, r.2) := rfl
  rw [hread]
  split
  · next hbrace =>
    rw [readMembers_of_brace hbrace] at h
    cases h
  · rw [h]
    rfl

/-- An item in front of the bracket is the last one. -/
theorem readItems_last (h : read fuel cs = some (d, ']' :: rest)) :
    readItems (fuel + 1) cs = some ([d], rest) := by
  rw [readItems, h]
  rfl

/-- An item in front of a comma is followed by others. -/
theorem readItems_cons (h : read fuel cs = some (d, ',' :: rest))
    (hitems : readItems fuel rest = some (items, rest')) :
    readItems (fuel + 1) cs = some (d :: items, rest') := by
  have hread : readItems (fuel + 1) cs = (readItems fuel rest).bind fun r => some (d :: r.1, r.2) := by
    rw [readItems, h]
    rfl
  rw [hread, hitems]
  rfl

/-- A key is a string in front of a colon. -/
theorem readKey_eq (h : Quoted.readChars fuel cs = some (s, ':' :: rest)) :
    readKey fuel ('"' :: cs) = some (String.ofList s, rest) := by
  rw [readKey, h]
  rfl

/-- A member in front of the brace is the last one. -/
theorem readMembers_last (hkey : readKey fuel (skipBlanks cs) = some (key, rest))
    (h : read fuel rest = some (d, '\x7d' :: rest')) :
    readMembers (fuel + 1) cs = some ([(key, d)], rest') := by
  rw [readMembers, hkey, Option.bind_eq_bind, Option.bind_some]
  dsimp only
  rw [h]
  rfl

/-- A member in front of a comma is followed by others. -/
theorem readMembers_cons {rest'' : List Char} (hkey : readKey fuel (skipBlanks cs) = some (key, rest))
    (h : read fuel rest = some (d, ',' :: rest'))
    (hmembers : readMembers fuel rest' = some (members, rest'')) :
    readMembers (fuel + 1) cs = some ((key, d) :: members, rest'') := by
  have hread : readMembers (fuel + 1) cs =
      (readMembers fuel rest').bind fun r => some ((key, d) :: r.1, r.2) := by
    rw [readMembers, hkey, Option.bind_eq_bind, Option.bind_some]
    dsimp only
    rw [h]
    rfl
  rw [hread, hmembers]
  rfl

end Datum
end Stencil
