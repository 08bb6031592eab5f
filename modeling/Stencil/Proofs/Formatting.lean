import Mathlib.Logic.ExistsUnique
import Stencil.Builtin.Format

/-!
# Formatting piece by piece

A format is a row of characters and directives, and may end inside a directive. Each directive but `%%` takes
one operand, the next one, so what a format and its operands give in front of others does not depend on what
follows, and what follows is formatted as if it stood alone. A directive for which no operand is left is
reported in its place, and the operands for which there is no directive are reported at the end.
-/

namespace Stencil.Builtin

/-- The number that the digits of a precision stand for. -/
def precisionOf (digits : List Char) : Nat :=
  digits.foldl (fun n d => 10 * n + (d.toNat - '0'.toNat)) 0

/-- How a format is made up of pieces. -/
inductive Reads : List Char → List Piece → Prop where
  | nil : Reads [] []
  | literal {c : Char} {rest : List Char} {ps : List Piece} : c ≠ '%' → Reads rest ps →
      Reads (c :: rest) (.literal c :: ps)
  | plain {verb : Char} {rest : List Char} {ps : List Piece} : verb ≠ '.' → Reads rest ps →
      Reads ('%' :: verb :: rest) (.directive none verb :: ps)
  | precise {digits rest : List Char} {verb : Char} {ps : List Piece} : (∀ d ∈ digits, d.isDigit) →
      verb.isDigit = false → Reads rest ps →
      Reads ('%' :: '.' :: (digits ++ verb :: rest))
        (.directive (some (clampPrecision (precisionOf digits))) verb :: ps)
  /-- The format ends behind a percent sign. -/
  | cut : Reads ['%'] [.unfinished]
  /-- The format ends behind a precision. -/
  | cutPrecise {digits : List Char} : (∀ d ∈ digits, d.isDigit) →
      Reads ('%' :: '.' :: digits) [.unfinished]

variable {cs rest digits : List Char} {ps qs : List Piece} {schema : Schema} {args : List Value}

/-! ### Scanning -/

/-- Digits of a precision are read as a number. -/
theorem scanFormat_digits (h : ∀ d ∈ digits, d.isDigit) (n : Nat) (rest : List Char) :
    scanFormat (.precision n) (digits ++ rest) =
      scanFormat (.precision (digits.foldl (fun n d => 10 * n + (d.toNat - '0'.toNat)) n)) rest := by
  induction digits generalizing n with
  | nil => rfl
  | cons d digits ih =>
    obtain ⟨hd, hdigits⟩ := List.forall_mem_cons.mp h
    rw [List.cons_append, scanFormat, if_pos hd, ih hdigits, List.foldl_cons]

/-- A format has no other pieces than those that scanning finds. -/
theorem Reads.scanFormat_eq (h : Reads cs ps) : scanFormat .text cs = ps := by
  induction h with
  | nil => rfl
  | literal hc _ ih => rw [scanFormat, if_neg hc, ih]
  | plain hverb _ ih => rw [scanFormat, if_pos rfl, scanFormat, if_neg hverb, ih]
  | precise hdigits hverb _ ih =>
    rw [scanFormat, if_pos rfl, scanFormat, if_pos rfl, scanFormat_digits hdigits, scanFormat,
      if_neg (by simp [hverb]), ih]
    rfl
  | cut => rfl
  | @cutPrecise digits hdigits =>
    have hscan := scanFormat_digits hdigits 0 []
    rw [List.append_nil] at hscan
    rw [scanFormat, if_pos rfl, scanFormat, if_pos rfl, hscan]
    rfl

/-- What a scan has read of the piece that it is in. -/
inductive Begun : ScanState → List Char → Prop where
  | text : Begun .text []
  | percent : Begun .percent ['%']
  | precision {digits : List Char} : (∀ d ∈ digits, d.isDigit) →
      Begun (.precision (precisionOf digits)) ('%' :: '.' :: digits)

/-- Scanning reads the pieces of a format. -/
theorem Begun.reads {state : ScanState} {front : List Char} (h : Begun state front) (cs : List Char) :
    Reads (front ++ cs) (scanFormat state cs) := by
  induction cs generalizing state front with
  | nil =>
    rw [List.append_nil]
    cases h with
    | text => exact .nil
    | percent => exact .cut
    | precision hdigits => exact .cutPrecise hdigits
  | cons c cs ih =>
    cases h with
    | text =>
      rw [scanFormat]
      split
      · next hc =>
        subst hc
        exact ih .percent
      · next hc => exact .literal hc (ih .text)
    | percent =>
      rw [scanFormat]
      split
      · next hc =>
        subst hc
        exact ih (.precision fun _ hd => nomatch (hd : _ ∈ []))
      · next hc => exact .plain hc (ih .text)
    | @precision digits hdigits =>
      rw [scanFormat]
      split
      · next hc =>
        have hall : ∀ d ∈ digits ++ [c], d.isDigit :=
          List.forall_mem_append.mpr ⟨hdigits, List.forall_mem_singleton.mpr hc⟩
        have hrest := ih (.precision hall)
        simpa [precisionOf] using hrest
      · next hc => exact .precise hdigits (by simpa using hc) (ih .text)

/-- Every format is read as pieces. -/
theorem reads_scanFormat (cs : List Char) : Reads cs (scanFormat .text cs) := Begun.text.reads cs

/-- Behind a format that does not end inside a directive another one begins anew. -/
theorem Reads.append (h : Reads cs ps) (hwhole : .unfinished ∉ ps) (hrest : Reads rest qs) :
    Reads (cs ++ rest) (ps ++ qs) := by
  induction h with
  | nil => exact hrest
  | literal hc _ ih => exact .literal hc (ih fun hmem => hwhole (List.mem_cons_of_mem _ hmem))
  | plain hverb _ ih => exact .plain hverb (ih fun hmem => hwhole (List.mem_cons_of_mem _ hmem))
  | precise hdigits hverb _ ih =>
    simp only [List.cons_append, List.append_assoc]
    exact .precise hdigits hverb (ih fun hmem => hwhole (List.mem_cons_of_mem _ hmem))
  | cut | cutPrecise => exact absurd List.mem_cons_self hwhole

/-! ### Operands -/

/-- Whether a piece takes an operand. -/
def Piece.takesOperand : Piece → Bool
  | .directive _ verb => verb != '%'
  | _ => false

/-- The number of operands that pieces take. -/
def operandCount (ps : List Piece) : Nat := ps.countP Piece.takesOperand

/-- What a piece gives, with the operand that it takes if there is one. -/
def Piece.text (schema : Schema) (operand : Option Value) : Piece → String
  | .literal c => c.toString
  | .unfinished => "%!(NOVERB)"
  | .directive precision verb =>
    if verb = '%' then "%"
    else
      match operand with
      | none => "%!" ++ verb.toString ++ "(MISSING)"
      | some v => formatOperand schema precision verb v.unboxed

/-- What pieces give: each gets the operand behind those that the pieces in front of it take. -/
def pieceTexts (schema : Schema) (ps : List Piece) (args : List Value) : List String :=
  ps.mapIdx fun index p => p.text schema args[operandCount (ps.take index)]?

/-- The operands of two formats are counted together. -/
theorem operandCount_append (ps qs : List Piece) :
    operandCount (ps ++ qs) = operandCount ps + operandCount qs := List.countP_append

/-- The first piece takes an operand if it needs one, and the others take what is left. -/
theorem pieceTexts_cons (schema : Schema) (p : Piece) (ps : List Piece) (args : List Value) :
    pieceTexts schema (p :: ps) args =
      p.text schema args.head? :: pieceTexts schema ps (args.drop (operandCount [p])) := by
  have hcount (index : Nat) : operandCount ((p :: ps).take (index + 1)) =
      operandCount [p] + operandCount (ps.take index) := by
    rw [← operandCount_append]
    rfl
  rw [pieceTexts, List.mapIdx_cons]
  simp only [hcount, List.take_zero, ← List.getElem?_drop]
  simp [pieceTexts, operandCount, List.head?_eq_getElem?]

/-- A piece is formatted with the next operand, which is then gone if the piece takes one. -/
theorem formatPieces_cons (schema : Schema) (p : Piece) (ps : List Piece) (args : List Value) :
    formatPieces schema (p :: ps) args =
      (p.text schema args.head? ++ (formatPieces schema ps (args.drop (operandCount [p]))).1,
        (formatPieces schema ps (args.drop (operandCount [p]))).2) := by
  cases p with
  | literal c => rfl
  | unfinished => rfl
  | directive precision verb =>
    by_cases hverb : verb = '%'
    · subst hverb
      cases args <;> rfl
    · have hcount : operandCount [.directive precision verb] = 1 := by
        simp [operandCount, Piece.takesOperand, hverb]
      cases args with
      | nil => simp only [formatPieces, Piece.text, hcount, if_neg hverb, List.head?_nil, List.drop_nil]
      | cons v args =>
        simp only [formatPieces, Piece.text, hcount, if_neg hverb, List.head?_cons, List.drop_one,
          List.tail_cons]

/-- Formatting gives what the pieces give, one behind the other, and leaves the operands that they do not
take. -/
theorem formatPieces_eq (schema : Schema) (ps : List Piece) (args : List Value) :
    formatPieces schema ps args =
      (String.join (pieceTexts schema ps args), args.drop (operandCount ps)) := by
  induction ps generalizing args with
  | nil => rfl
  | cons p ps ih =>
    rw [formatPieces_cons, ih, pieceTexts_cons, String.join_cons, List.drop_drop, ← operandCount_append]
    rfl

/-- Formatting writes the texts of the pieces and then the operands that are left. -/
theorem Reads.sprintf_eq {f : String} (h : Reads f.toList ps) (args : List Value) :
    sprintf schema f args =
      String.join (pieceTexts schema ps args) ++ extraOperands schema (args.drop (operandCount ps)) := by
  rw [sprintf, h.scanFormat_eq, formatPieces_eq]

/-! ### Composition -/

/-- Two formats that are each given their operands are formatted piece by piece. -/
theorem pieceTexts_append {a : List Value} (b : List Value) (hcount : a.length = operandCount ps)
    (qs : List Piece) :
    pieceTexts schema (ps ++ qs) (a ++ b) = pieceTexts schema ps a ++ pieceTexts schema qs b := by
  induction ps generalizing a with
  | nil =>
    obtain rfl : a = [] := List.length_eq_zero_iff.mp hcount
    rfl
  | cons p ps ih =>
    have hsum : a.length = operandCount [p] + operandCount ps :=
      hcount.trans (operandCount_append [p] ps)
    have hrest : (a.drop (operandCount [p])).length = operandCount ps := by
      rw [List.length_drop]
      omega
    have hdrop : (a ++ b).drop (operandCount [p]) = a.drop (operandCount [p]) ++ b :=
      List.drop_append_of_le_length (by omega)
    rw [List.cons_append, pieceTexts_cons, pieceTexts_cons, hdrop, ih hrest, List.cons_append]
    congr 1
    cases a with
    | cons v a => rfl
    | nil =>
      -- the piece takes no operand, so that it does not matter which is the next one
      have hnone : p.takesOperand = false := by
        cases hsome : p.takesOperand with
        | false => rfl
        | true =>
          simp [operandCount, hsome] at hsum
          omega
      cases p with
      | literal c => rfl
      | unfinished => rfl
      | directive precision verb =>
        obtain rfl : verb = '%' := by simpa [Piece.takesOperand] using hnone
        rfl

/-- A format behind a whole one is formatted by itself, if the whole one gets its operands. -/
theorem sprintf_append {f : String} {a : List Value} (h : Reads f.toList ps) (hwhole : .unfinished ∉ ps)
    (hcount : a.length = operandCount ps) (g : String) (b : List Value) :
    sprintf schema (f ++ g) (a ++ b) = sprintf schema f a ++ sprintf schema g b := by
  obtain hg := reads_scanFormat g.toList
  have hfg : Reads (f ++ g).toList (ps ++ scanFormat .text g.toList) := by
    rw [String.toList_append]
    exact h.append hwhole hg
  have hdrop : (a ++ b).drop (operandCount ps + operandCount (scanFormat .text g.toList)) =
      b.drop (operandCount (scanFormat .text g.toList)) := by
    rw [← hcount, List.drop_length_add_append]
  have hleft : extraOperands schema (a.drop (operandCount ps)) = "" := by
    rw [← hcount, List.drop_length]
    rfl
  rw [hfg.sprintf_eq, h.sprintf_eq, hg.sprintf_eq, pieceTexts_append b hcount, operandCount_append,
    hdrop, hleft, String.join_append, String.append_empty, String.append_assoc]

/-- Formatting is compositional: a format that does not end inside a directive, with as many operands as its
directives take, gives the same in front of any other format and operands, and these give what they give
alone.

So the pieces of a format, which the format determines, give their texts one behind the other. The directive
at `i` gets the operand whose index is the number of directives in front of it that take one, and is reported
as missing just if there is none. The operands behind those that directives take are reported at the end, in
their order, and there is no report if there are none. -/
theorem formatting_is_compositional (schema : Schema) :
    (∀ f g ps a b, Reads f.toList ps → .unfinished ∉ ps → a.length = operandCount ps →
      sprintf schema (f ++ g) (a ++ b) = sprintf schema f a ++ sprintf schema g b) ∧
    (∀ f : String, ∃! ps, Reads f.toList ps) ∧
    ∀ f ps args, Reads f.toList ps →
      sprintf schema f args =
        String.join (pieceTexts schema ps args) ++
          (if args.length ≤ operandCount ps then ""
            else "%!(EXTRA " ++ ", ".intercalate
              ((args.drop (operandCount ps)).map fun v => v.typeName ++ "=" ++ v.display schema) ++ ")") ∧
      ∀ i precision verb, ps[i]? = some (.directive precision verb) →
        (pieceTexts schema ps args)[i]? = some
          (if verb = '%' then "%"
            else if h : operandCount (ps.take i) < args.length then
              formatOperand schema precision verb (args[operandCount (ps.take i)]).unboxed
            else "%!" ++ verb.toString ++ "(MISSING)") := by
  refine ⟨fun f g ps a b h hwhole hcount => sprintf_append h hwhole hcount g b, fun f => ?unique,
    fun f ps args h => ⟨?extra, fun i precision verb hi => ?operand⟩⟩
  case unique => exact ⟨_, reads_scanFormat f.toList, fun qs hqs => hqs.scanFormat_eq.symm⟩
  case extra => simp only [h.sprintf_eq, extraOperands, List.isEmpty_iff, List.drop_eq_nil_iff]
  case operand =>
    rw [pieceTexts, List.getElem?_mapIdx, hi, Option.map_some]
    by_cases hverb : verb = '%'
    · simp only [Piece.text, if_pos hverb]
    simp only [Piece.text, if_neg hverb]
    by_cases hlt : operandCount (ps.take i) < args.length
    · rw [dif_pos hlt, List.getElem?_eq_getElem hlt]
    · rw [dif_neg hlt, List.getElem?_eq_none (Nat.le_of_not_lt hlt)]

/-- The first format takes the one operand that it is given, and the second one misses one. -/
theorem formatting_is_compositional_sample :
    Reads "%d-%%".toList [.directive none 'd', .literal '-', .directive none '%'] ∧
    sprintf .plain ("%d-%%" ++ "[%s] %.1f") ([.int 7] ++ [.str "x"]) =
      sprintf .plain "%d-%%" [.int 7] ++ sprintf .plain "[%s] %.1f" [.str "x"] ∧
    sprintf .plain "%d-%%" [.int 7] = "7-%" ∧
    sprintf .plain "[%s] %.1f" [.str "x"] = "[x] %!f(MISSING)" := by
  have hread : Reads "%d-%%".toList [.directive none 'd', .literal '-', .directive none '%'] :=
    .plain (by decide) (.literal (by decide) (.plain (by decide) .nil))
  exact ⟨hread, (formatting_is_compositional .plain).1 _ _ _ _ _ hread (by decide) rfl,
    by decide +kernel, by decide +kernel⟩

end Stencil.Builtin
