import Stencil.Machine.Step
import Stencil.Proofs.Coercion
import Stencil.Proofs.FieldAccess

/-!
# What is printed

Printing goes by the value behind all pointers and boxes. If it is a function or a stream, printing
fails, and if it is nil or a nil box, nothing is written. All else is written in its display form, which
is that of the whole value: a pointer right in front of a record shows, and all other pointers and boxes
do not. Operands that are printed one after the other are told apart by a space if neither of two
neighbours is a text.
-/

namespace Stencil

namespace Value

variable {schema : Schema} {v w c : Value} {args rest : List Value} {before : Option Value}
  {s p q : String}

/-- Whether a value is a function or a stream, of which templates only have a handle. -/
def isHandle : Value → Bool
  | func .. | stream _ => true
  | _ => false

/-- Whether nothing is written for a value that is neither a pointer nor a box. -/
def isSilent : Value → Bool
  | nil | nilBox => true
  | _ => false

/-! ### Pointers and boxes -/

/-- Only a pointer right in front of a record shows. -/
theorem display_of_deref? (hlayer : v.deref? = some w)
    (hrecord : ∀ ty fields addressable, v ≠ .ptr (.record ty fields addressable)) :
    v.display schema = w.display schema := by
  unfold deref? at hlayer
  split at hlayer
  · next target =>
    cases hlayer
    cases target with
    | record ty fields addressable => exact absurd rfl (hrecord ty fields addressable)
    | _ => rfl
  · cases hlayer
    rw [display]
  · cases hlayer

/-- A layer that is no pointer to a record does not show. -/
theorem printed_of_deref? (hlayer : v.deref? = some w)
    (hrecord : ∀ ty fields addressable, v ≠ .ptr (.record ty fields addressable)) :
    v.printed schema = w.printed schema := by
  unfold deref? at hlayer
  split at hlayer
  · next target =>
    cases hlayer
    cases target with
    | record ty fields addressable => exact absurd rfl (hrecord ty fields addressable)
    | _ => rfl
  · cases hlayer
    rw [printed]
  · cases hlayer

/-- A value without layers only leads to itself. -/
theorem LeadsTo.eq_of_deref? (h : v.LeadsTo c) (hlayer : v.deref? = none) : c = v := by
  cases h with
  | refl => rfl
  | layer hsome => rw [hlayer] at hsome; cases hsome

/-- What is printed for a value that is neither a pointer nor a box. -/
theorem printed_of_plain (hlayer : c.deref? = none) :
    c.printed schema =
      if c.isHandle then .error (.notPrintable c.typeName)
      else .ok (if c.isSilent then "" else c.display schema) := by
  cases c with
  | ptr | box => cases hlayer
  | _ => rfl

/-- What is printed for a value is told by the value behind its pointers and boxes. -/
theorem printed_of_leadsTo (hleads : v.LeadsTo c) (hlayer : c.deref? = none) :
    v.printed schema =
      if c.isHandle then .error (.notPrintable c.typeName)
      else .ok (if c.isSilent then "" else v.display schema) := by
  induction hleads with
  | refl => exact printed_of_plain hlayer
  | @layer v w u hfirst hrest ih =>
    by_cases hrecord : ∃ ty fields addressable, v = .ptr (.record ty fields addressable)
    · obtain ⟨ty, fields, addressable, rfl⟩ := hrecord
      cases hfirst
      rw [hrest.eq_of_deref? rfl]
      rfl
    · have hnot : ∀ ty fields addressable, v ≠ .ptr (.record ty fields addressable) :=
        fun ty fields addressable heq => hrecord ⟨ty, fields, addressable, heq⟩
      rw [printed_of_deref? hfirst hnot, display_of_deref? hfirst hnot, ih hlayer]

/-- Handles have no layers. -/
theorem deref?_of_isHandle (h : c.isHandle = true) : c.deref? = none := by
  cases c with
  | func | stream => rfl
  | _ => cases h

/-- Handles are not silent. -/
theorem isSilent_of_isHandle (h : c.isHandle = true) : c.isSilent = false := by
  cases c with
  | func | stream => rfl
  | _ => cases h

/-- Printing fails exactly on what leads to a function or a stream. -/
theorem printed_eq_error_iff :
    (∃ e, v.printed schema = .error e) ↔ ∃ c, v.LeadsTo c ∧ c.isHandle = true := by
  constructor
  · rintro ⟨e, he⟩
    obtain ⟨c, hleads, hlayer⟩ := v.exists_leadsTo
    refine ⟨c, hleads, ?_⟩
    rw [printed_of_leadsTo hleads hlayer] at he
    split at he
    · next hhandle => exact hhandle
    · cases he
  · rintro ⟨c, hleads, hhandle⟩
    exact ⟨_, by rw [printed_of_leadsTo hleads (deref?_of_isHandle hhandle), if_pos hhandle]⟩

/-! ### Operands one after the other -/

/-- Whether operands are printed as a text: the texts of the operands in their order, with a space
between two neighbours neither of which is a text. -/
inductive Prints (schema : Schema) : List Value → String → Prop where
  | none : Prints schema [] ""
  | one {v : Value} {s : String} (hv : v.printed schema = .ok s) : Prints schema [v] s
  | spaced {v w : Value} {rest : List Value} {s p : String} (hv : v.printed schema = .ok s)
      (hleft : v.isText = false) (hright : w.isText = false) (hrest : Prints schema (w :: rest) p) :
      Prints schema (v :: w :: rest) (s ++ " " ++ p)
  | glued {v w : Value} {rest : List Value} {s p : String} (hv : v.printed schema = .ok s)
      (htext : v.isText = true ∨ w.isText = true) (hrest : Prints schema (w :: rest) p) :
      Prints schema (v :: w :: rest) (s ++ p)

/-- The space in front of an operand, if there is one. -/
def gap (before : Option Value) (v : Value) : String := if before.any (spaced · v) then " " else ""

/-- An operand with what is printed for it. -/
def withText (schema : Schema) (v : Value) : Except RuntimeError (Value × String) := do
  return (v, ← v.printed schema)

/-- What is printed for operands behind another one, if there is one. -/
def printedBehind (schema : Schema) (before : Option Value) (args : List Value) :
    Except RuntimeError String := do
  let texts ← args.mapM (withText schema)
  return joinOperands before texts

/-- Operands are printed behind nothing. -/
theorem printedAll_eq (args : List Value) : printedAll schema args = printedBehind schema none args := rfl

/-- No operands print nothing. -/
theorem printedBehind_nil (before : Option Value) : printedBehind schema before [] = .ok "" := rfl

/-- An operand is printed with the gap in front of it, and the others behind it. -/
theorem printedBehind_cons (before : Option Value) (v : Value) (rest : List Value) :
    printedBehind schema before (v :: rest) =
      match v.printed schema with
      | .error e => .error e
      | .ok s => (printedBehind schema (some v) rest).map fun p => gap before v ++ s ++ p := by
  unfold printedBehind
  rw [List.mapM_cons, withText]
  cases v.printed schema with
  | error e => rfl
  | ok s => cases rest.mapM (withText schema) <;> rfl

/-- Operands are printed if each of them is. -/
theorem printedBehind_cons_eq_ok_iff : printedBehind schema before (v :: rest) = .ok q ↔
    ∃ s p, v.printed schema = .ok s ∧ printedBehind schema (some v) rest = .ok p ∧
      gap before v ++ s ++ p = q := by
  rw [printedBehind_cons]
  cases v.printed schema with
  | error e => exact ⟨nofun, fun ⟨_, _, h, _⟩ => nomatch h⟩
  | ok s => cases printedBehind schema (some v) rest <;> simp [Except.map]

/-- The rules tell the text of an operand and of the operands behind it. -/
theorem prints_cons_iff : Prints schema (v :: rest) q ↔
    ∃ s p, v.printed schema = .ok s ∧ printedBehind schema (some v) rest = .ok p ∧ s ++ p = q := by
  induction rest generalizing v q with
  | nil =>
    constructor
    · rintro ⟨⟩
      next hv => exact ⟨q, "", hv, printedBehind_nil _, String.append_empty⟩
    · rintro ⟨s, p, hv, hp, rfl⟩
      obtain rfl : "" = p := Except.ok.inj hp
      rw [String.append_empty]
      exact .one hv
  | cons w rest ih =>
    constructor
    · intro h
      cases h with
      | spaced hv hleft hright hrest =>
        obtain ⟨s', p', hw, hbehind, rfl⟩ := ih.mp hrest
        refine ⟨_, _, hv, printedBehind_cons_eq_ok_iff.mpr ⟨s', p', hw, hbehind, rfl⟩, ?_⟩
        simp [gap, Value.spaced, hleft, hright, String.append_assoc]
      | glued hv htext hrest =>
        obtain ⟨s', p', hw, hbehind, rfl⟩ := ih.mp hrest
        refine ⟨_, _, hv, printedBehind_cons_eq_ok_iff.mpr ⟨s', p', hw, hbehind, rfl⟩, ?_⟩
        rcases htext with htext | htext <;> simp [gap, Value.spaced, htext]
    · rintro ⟨s, p, hv, hrest, rfl⟩
      obtain ⟨s', p', hw, hbehind, rfl⟩ := printedBehind_cons_eq_ok_iff.mp hrest
      have hprints : Prints schema (w :: rest) (s' ++ p') := ih.mpr ⟨s', p', hw, hbehind, rfl⟩
      cases hspaced : Value.spaced v w with
      | true =>
        obtain ⟨hleft, hright⟩ : v.isText = false ∧ w.isText = false := by
          simpa [Value.spaced] using hspaced
        simpa [gap, hspaced, String.append_assoc] using Prints.spaced hv hleft hright hprints
      | false =>
        have htext : v.isText = true ∨ w.isText = true := by
          simpa only [Bool.not_eq_false'] using Bool.and_eq_false_iff.mp hspaced
        simpa [gap, hspaced] using Prints.glued hv htext hprints

/-- Operands are printed as the rules tell. -/
theorem printedAll_eq_ok_iff : printedAll schema args = .ok p ↔ Prints schema args p := by
  rw [printedAll_eq]
  cases args with
  | nil =>
    rw [printedBehind_nil]
    constructor
    · rintro ⟨⟩
      exact .none
    · rintro ⟨⟩
      rfl
  | cons v rest =>
    have hgap (s : String) : gap none v ++ s = s := String.empty_append
    simp only [printedBehind_cons_eq_ok_iff, prints_cons_iff, hgap]

/-- Printing operands fails exactly if one of them leads to a function or a stream. -/
theorem printedAll_eq_error_iff :
    (∃ e, printedAll schema args = .error e) ↔
      ∃ v ∈ args, ∃ c, v.LeadsTo c ∧ c.isHandle = true := by
  have hbehind (before : Option Value) : (∃ e, printedBehind schema before args = .error e) ↔
      ∃ v ∈ args, ∃ e, v.printed schema = .error e := by
    induction args generalizing before with
    | nil => exact iff_of_false nofun nofun
    | cons v rest ih =>
      simp only [List.mem_cons, exists_eq_or_imp, ← ih (some v), printedBehind_cons]
      cases v.printed schema with
      | error e => simp
      | ok s => cases printedBehind schema (some v) rest <;> simp [Except.map]
  simp only [printedAll_eq, hbehind none, printed_eq_error_iff]

/-! ### Operands of untyped functions -/

/-- An empty box prints as nil does. -/
theorem printed_asOperand (v : Value) : v.asOperand.printed schema = v.printed schema := by
  cases v <;> rfl

/-- An empty box is no text, and neither is nil. -/
theorem isText_asOperand (v : Value) : v.asOperand.isText = v.isText := by
  cases v <;> rfl

/-- An empty box has the gaps of nil. -/
theorem gap_asOperand (before : Option Value) (v : Value) :
    gap (before.map asOperand) v.asOperand = gap before v := by
  cases before with
  | none => rfl
  | some u =>
    have hspaced : Value.spaced u.asOperand v.asOperand = Value.spaced u v := by
      rw [Value.spaced, Value.spaced, isText_asOperand, isText_asOperand]
    simp only [gap, Option.map_some, Option.any_some, hspaced]

/-- For printing it does not matter that a nil box becomes nil. -/
theorem printedBehind_asOperand (before : Option Value) (args : List Value) :
    printedBehind schema (before.map asOperand) (args.map asOperand) =
      printedBehind schema before args := by
  induction args generalizing before with
  | nil => rfl
  | cons v rest ih =>
    simp only [List.map_cons, printedBehind_cons, printed_asOperand, gap_asOperand]
    rw [← ih (some v)]
    rfl

/-- Operands with empty boxes print as those with nil do. -/
theorem printedAll_asOperand (args : List Value) :
    printedAll schema (args.map asOperand) = printedAll schema args := printedBehind_asOperand none args

/-- An operand of a text is that text. -/
theorem asOperand_eq_text_iff {kind : TextKind} : v.asOperand = .text kind s ↔ v = .text kind s := by
  cases v with
  | nilBox => exact iff_of_false nofun nofun
  | _ => exact .rfl

/-- Only a text of a content type gives an escaper a text of this type. -/
theorem map_asOperand_eq_text_iff {kind : TextKind} :
    args.map asOperand = [.text kind s] ↔ args = [.text kind s] := by
  simp only [List.map_eq_singleton_iff, asOperand_eq_text_iff, exists_eq_right]

end Value

/-! ### The instruction that prints -/

namespace Machine

variable {schema : Schema} {t : Tables} {m : Machine} {v c : Value} {rest : List Value}

/-- The machine with more output. -/
def emitted (m : Machine) (bytes : ByteArray) : Machine :=
  { m with sink := { m.sink with written := m.sink.written ++ bytes } }

/-- Writing nothing changes no machine. -/
theorem emitted_empty (m : Machine) : m.emitted "".toUTF8 = m := by
  have hbytes : m.sink.written ++ "".toUTF8 = m.sink.written := ByteArray.append_empty
  rw [emitted, hbytes]

/-- A sink without a bound takes every write. -/
theorem write_of_unbounded (hsink : m.sink.bound = none) (bytes : ByteArray) :
    m.write bytes = .next (m.emitted bytes) := by
  obtain ⟨held, dot, ⟨written, bound⟩, streams⟩ := m
  cases hsink
  rfl

/-- Printing agrees with the display form. What is printed for a value goes by the value that it leads
to: on a sink that takes every write, printing fails exactly if this is a function or a stream, and then
writes nothing; it writes nothing if this is nil or a nil box; and it writes the display form of the
whole value otherwise. -/
theorem print_agrees_with_display (hsink : m.sink.bound = none) (hstack : m.stack = v :: rest)
    (hleads : v.LeadsTo c) (hlayer : c.deref? = none) :
    ((∃ e m', m.step schema t .print = .fail e m') ↔ c.isHandle = true) ∧
    (c.isHandle = true → m.step schema t .print = .fail (.notPrintable c.typeName) m) ∧
    (c.isSilent = true → m.step schema t .print = .next m) ∧
    (c.isHandle = false → c.isSilent = false →
      m.step schema t .print = .next (m.emitted (v.display schema).toUTF8)) := by
  have hok {s : String} (h : v.printed schema = .ok s) :
      m.step schema t .print = .next (m.emitted s.toUTF8) := by
    simp only [step, hstack, print_eq, h, write_of_unbounded hsink]
  have herror {e : RuntimeError} (h : v.printed schema = .error e) :
      m.step schema t .print = .fail e m := by
    simp only [step, hstack, print_eq, h]
  have hprinted := @Value.printed_of_leadsTo schema v c hleads hlayer
  cases hhandle : c.isHandle with
  | true =>
    rw [hhandle, if_pos rfl] at hprinted
    refine ⟨iff_of_true ⟨_, _, herror hprinted⟩ rfl, fun _ => herror hprinted, fun hsilent => ?_,
      fun hnot => absurd hnot.symm Bool.false_ne_true⟩
    rw [Value.isSilent_of_isHandle hhandle] at hsilent
    cases hsilent
  | false =>
    rw [hhandle, if_neg Bool.false_ne_true] at hprinted
    refine ⟨iff_of_false ?_ Bool.false_ne_true, fun hnot => absurd hnot Bool.false_ne_true,
      fun hsilent => ?_, fun _ hsilent => ?_⟩
    · rintro ⟨e, m', hfail⟩
      rw [hok hprinted] at hfail
      cases hfail
    · rw [hsilent, if_pos rfl] at hprinted
      rw [hok hprinted, emitted_empty]
    · rw [hsilent, if_neg Bool.false_ne_true] at hprinted
      exact hok hprinted

namespace Sample

/-- A page without an address behind pointers and boxes. -/
def profile : Value := .box (.ptr (.box (.ptr (.record page [.str "Home"] false))))

/-- A machine that is to print it. -/
def printer : Machine := { fresh .unlimited .none with stack := [profile] }

/-- The sample leads to its page, which has an address behind its pointer. -/
theorem profile_leadsTo : profile.LeadsTo (.record page [.str "Home"] true) :=
  .layer rfl (.layer rfl (.layer rfl (.layer rfl (.refl _))))

/-- The pointer in front of the page shows. -/
theorem display_profile : profile.display .plain = "&\x7bHome\x7d" := by rfl

end Sample

/-- A record behind a pointer that is behind a box. -/
theorem print_agrees_with_display_sample :
    Sample.printer.sink.bound = none ∧ Sample.printer.stack = [Sample.profile] ∧
      Sample.profile.LeadsTo (.record Sample.page [.str "Home"] true) ∧
      (Value.record Sample.page [.str "Home"] true).deref? = none ∧
      Sample.printer.step .plain .empty .print =
        .next (Sample.printer.emitted "&\x7bHome\x7d".toUTF8) := by
  have hprint := (@print_agrees_with_display .plain .empty Sample.printer Sample.profile
    (.record Sample.page [.str "Home"] true) [] rfl rfl Sample.profile_leadsTo rfl).2.2.2 rfl rfl
  rw [Sample.display_profile] at hprint
  exact ⟨rfl, rfl, Sample.profile_leadsTo, rfl, hprint⟩

end Machine
end Stencil
