import Stencil.Proofs.EscaperCalls
import Stencil.Proofs.Printing

/-!
# Text in markup

Escaped text can stand in the content of an element and in a quoted attribute: no character of it ends
one of them, and each ampersand starts an entity. Nothing is lost, since replacing the entities by their
characters gives the text back, with a replacement character for each null character. That an entity
may already stand in the text does no harm, since its ampersand has been escaped.
-/

namespace Stencil

namespace Markup

variable {c : Char} {cs rest : List Char}

/-- The entities of escaped text. -/
def entities : List String := ["&#34;", "&amp;", "&#39;", "&#43;", "&lt;", "&gt;"]

/-- The characters that no escaped text has. -/
def forbidden : List Char := ['<', '>', '"', '\'', '+', '\x00']

/-- Replace entities by their characters. -/
def unescape : List Char → List Char
  | '&' :: '#' :: '3' :: '4' :: ';' :: rest => '"' :: unescape rest
  | '&' :: 'a' :: 'm' :: 'p' :: ';' :: rest => '&' :: unescape rest
  | '&' :: '#' :: '3' :: '9' :: ';' :: rest => '\'' :: unescape rest
  | '&' :: '#' :: '4' :: '3' :: ';' :: rest => '+' :: unescape rest
  | '&' :: 'l' :: 't' :: ';' :: rest => '<' :: unescape rest
  | '&' :: 'g' :: 't' :: ';' :: rest => '>' :: unescape rest
  | c :: rest => c :: unescape rest
  | [] => []

/-- Whether a text is safe in markup. -/
structure IsSafe (cs : List Char) : Prop where
  plain : ∀ c ∈ cs, c ∉ forbidden
  entity : ∀ rest, '&' :: rest <:+ cs → ∃ e ∈ entities, e.toList <+: '&' :: rest

/-- What markup shows for a character. -/
def shown (c : Char) : Char := if c = '\x00' then '\uFFFD' else c

/-- Only an ampersand starts an entity. -/
theorem unescape_cons (h : c ≠ '&') (rest : List Char) : unescape (c :: rest) = c :: unescape rest := by
  rw [unescape.eq_def]
  split <;> simp_all

/-- The empty text is safe. -/
theorem isSafe_nil : IsSafe [] where
  plain := nofun
  entity rest h := by cases List.suffix_nil.mp h

/-- A character that is no ampersand and not forbidden can be put in front. -/
theorem IsSafe.cons (h : IsSafe cs) (hplain : c ∉ forbidden) (hc : c ≠ '&') : IsSafe (c :: cs) where
  plain := List.forall_mem_cons.mpr ⟨hplain, h.plain⟩
  entity rest hrest := by
    rcases List.suffix_cons_iff.mp hrest with heq | hrest
    · cases heq
      exact absurd rfl hc
    · exact h.entity rest hrest

/-- An entity can be put in front. -/
theorem IsSafe.entity_append {name : List Char} (h : IsSafe cs)
    (hname : ∀ c ∈ name, c ∉ '&' :: forbidden) (hentity : String.ofList ('&' :: name) ∈ entities) :
    IsSafe ('&' :: name ++ cs) := by
  have hrest : IsSafe (name ++ cs) := by
    clear hentity
    induction name with
    | nil => exact h
    | cons c name ih =>
      obtain ⟨hc, hname⟩ := List.forall_mem_cons.mp hname
      rw [List.mem_cons, not_or] at hc
      exact (ih hname).cons hc.2 hc.1
  refine ⟨List.forall_mem_cons.mpr ⟨by decide, hrest.plain⟩, fun rest hsuffix => ?_⟩
  rcases List.suffix_cons_iff.mp hsuffix with heq | hsuffix
  · refine ⟨_, hentity, ?_⟩
    rw [heq, String.toList_ofList]
    exact List.prefix_append ('&' :: name) cs
  · exact hrest.entity rest hsuffix

end Markup

namespace Builtin

open Markup

variable {schema : Schema} {args : List Value} {s p q : String} {v : Value}

/-- Each character is shown as itself or written as an entity that stands for it. -/
theorem escapeHtmlChar_eq (c : Char) :
    ((escapeHtmlChar c).toList = [shown c] ∧ shown c ∉ '&' :: forbidden) ∨
      ∃ name, (escapeHtmlChar c).toList = '&' :: name ∧ (∀ c ∈ name, c ∉ '&' :: forbidden) ∧
        String.ofList ('&' :: name) ∈ entities ∧
        ∀ rest, unescape ('&' :: name ++ rest) = shown c :: unescape rest := by
  by_cases hc : c ∈ '&' :: forbidden
  · simp only [forbidden, List.mem_cons, List.not_mem_nil, or_false] at hc
    rcases hc with rfl | rfl | rfl | rfl | rfl | rfl | rfl
    · exact .inr ⟨['a', 'm', 'p', ';'], rfl, by simp [forbidden], by decide, fun _ => rfl⟩
    · exact .inr ⟨['l', 't', ';'], rfl, by simp [forbidden], by decide, fun _ => rfl⟩
    · exact .inr ⟨['g', 't', ';'], rfl, by simp [forbidden], by decide, fun _ => rfl⟩
    · exact .inr ⟨['#', '3', '4', ';'], rfl, by simp [forbidden], by decide, fun _ => rfl⟩
    · exact .inr ⟨['#', '3', '9', ';'], rfl, by simp [forbidden], by decide, fun _ => rfl⟩
    · exact .inr ⟨['#', '4', '3', ';'], rfl, by simp [forbidden], by decide, fun _ => rfl⟩
    · exact .inl ⟨rfl, by decide⟩
  · have hshown : shown c = c := if_neg fun h : c = '\x00' => hc (h ▸ by decide)
    refine .inl ⟨?_, hshown.symm ▸ hc⟩
    simp only [forbidden, List.mem_cons, List.not_mem_nil, or_false, not_or] at hc
    simp [escapeHtmlChar, hshown, hc]

/-- Escaping for markup goes character by character. -/
theorem toList_escapeHtml (s : String) :
    (escapeHtml s).toList = s.toList.flatMap fun c => (escapeHtmlChar c).toList := by
  rw [escapeHtml, String.toList_join, List.flatMap_map]

/-- Escaped text is safe. -/
theorem isSafe_escapeHtml (s : String) : IsSafe (escapeHtml s).toList := by
  rw [toList_escapeHtml]
  induction s.toList with
  | nil => exact isSafe_nil
  | cons c cs ih =>
    rw [List.flatMap_cons]
    rcases escapeHtmlChar_eq c with ⟨hc, hplain⟩ | ⟨name, hc, hname, hentity, -⟩
    · rw [List.mem_cons, not_or] at hplain
      rw [hc]
      exact ih.cons hplain.2 hplain.1
    · rw [hc]
      exact ih.entity_append hname hentity

/-- Replacing the entities by their characters gives back what is shown. -/
theorem unescape_escapeHtml (s : String) : unescape (escapeHtml s).toList = s.toList.map shown := by
  rw [toList_escapeHtml]
  induction s.toList with
  | nil => rfl
  | cons c cs ih =>
    rw [List.flatMap_cons, List.map_cons]
    rcases escapeHtmlChar_eq c with ⟨hc, hplain⟩ | ⟨name, hc, -, -, hunescape⟩
    · rw [List.mem_cons, not_or] at hplain
      rw [hc, List.singleton_append, unescape_cons hplain.1, ih]
    · rw [hc, hunescape, ih]

/-- A text without the null character is shown as it is. -/
theorem map_shown_eq_self (h : '\x00' ∉ s.toList) : s.toList.map shown = s.toList :=
  (List.map_congr_left fun c hc => if_neg fun heq : c = '\x00' => h (heq ▸ hc)).trans (List.map_id _)

/-- The escaper prints its operands and escapes the text, unless its only operand is markup. -/
theorem call_htmlFunction (hargs : ∀ s, args ≠ [.html s]) :
    Call.function (htmlFunction schema) args = .ok v ↔
      ∃ p, Value.Prints schema args p ∧ v = .html (escapeHtml p) := by
  have hoperands : ∀ s, args.map Value.asOperand ≠ [.html s] :=
    fun s h => hargs s (Value.map_asOperand_eq_text_iff.mp h)
  rw [htmlFunction, Call.function_operands, htmlEscaper, Value.printedAll_asOperand]
  · simp only [← Value.printedAll_eq_ok_iff]
    cases Value.printedAll schema args with
    | error e => simp [Call.returned]
    | ok p => simp [Call.returned, Value.unboxed, eq_comm]
  · exact hoperands

/-- The escaper for one text takes a text, or what is coerced to one, and nothing else. -/
theorem call_htmlStringFunction_eq_ok_iff :
    Call.function htmlStringFunction args = .ok v ↔
      ∃ a p, args = [a] ∧ Call.Coerces (.text .plain) a (.str p) ∧ v = .html (escapeHtml p) := by
  rw [Call.function_eq_iff]
  constructor
  · intro h
    generalize hr : Except.ok v = r at h
    cases h with
    | count | misfit => cases hr
    | @entered fixed tail hcount hfixed hcoerced =>
      have hone : args.length = 1 := hcount
      obtain ⟨a, rfl⟩ := List.length_eq_one_iff.mp hone
      obtain ⟨w, rfl⟩ := List.length_eq_one_iff.mp hfixed
      cases hcoerced with
      | cons hty hw hrest =>
        cases hty
        cases hrest
        obtain ⟨p, rfl⟩ : ∃ p, w = .str p := by
          rcases hw.accepts with hw | ⟨-, hty, -⟩
          · exact ParamType.eq_text_of_accepts hw
          · rcases hty with hty | hty <;> cases hty
        cases hr
        exact ⟨a, p, rfl, hw, rfl⟩
  · rintro ⟨a, p, rfl, ha, rfl⟩
    exact @Call.Ends.entered _ htmlStringFunction.sig [a] htmlStringFunction.entry [.str p] [] rfl rfl
      (.cons rfl ha .nil)

/-- Escaping for markup is safe and loses nothing. The escaper of operands, unless the only one is
markup, gives the escaped form of what is printed for them if they can be printed, and the escaper of one
text gives the escaped form of the text that its argument is coerced to. The escaped form of a text is
safe, and replacing the entities by their characters gives back the text, with null characters replaced. So
if there are none, texts with the same escaped form are the same. -/
theorem markup_escaping_is_lossless (schema : Schema) :
    (∀ args, (∀ s, args ≠ [.html s]) → ∀ v, Call.function (htmlFunction schema) args = .ok v ↔
      ∃ p, Value.Prints schema args p ∧ v = .html (escapeHtml p)) ∧
    (∀ args v, Call.function htmlStringFunction args = .ok v ↔
      ∃ a p, args = [a] ∧ Call.Coerces (.text .plain) a (.str p) ∧ v = .html (escapeHtml p)) ∧
    (∀ p, IsSafe (escapeHtml p).toList ∧ unescape (escapeHtml p).toList = p.toList.map shown) ∧
    ∀ p q, '\x00' ∉ p.toList → '\x00' ∉ q.toList → escapeHtml p = escapeHtml q → p = q := by
  refine ⟨fun args hargs v => call_htmlFunction hargs, fun args v => call_htmlStringFunction_eq_ok_iff,
    fun p => ⟨isSafe_escapeHtml p, unescape_escapeHtml p⟩, fun p q hp hq heq => ?_⟩
  have hshown : p.toList.map shown = q.toList.map shown := by
    rw [← unescape_escapeHtml, heq, unescape_escapeHtml]
  rw [map_shown_eq_self hp, map_shown_eq_self hq] at hshown
  exact String.toList_inj.mp hshown

/-- Three operands of which the last one has reserved characters and an entity. -/
theorem markup_escaping_is_lossless_sample :
    (∀ s, [Value.int 1, .int 2, .str "<&lt;"] ≠ [.html s]) ∧
      Call.function (htmlFunction .plain) [.int 1, .int 2, .str "<&lt;"] =
        .ok (.html "1 2&lt;&amp;lt;") ∧
      IsSafe "1 2&lt;&amp;lt;".toList ∧ unescape "1 2&lt;&amp;lt;".toList = "1 2<&lt;".toList := by
  obtain ⟨hcall, -, hescaped, -⟩ := markup_escaping_is_lossless .plain
  have hprints : Value.Prints .plain [.int 1, .int 2, .str "<&lt;"] ("1" ++ " " ++ ("2" ++ "<&lt;")) :=
    .spaced rfl rfl rfl (.glued rfl (.inr rfl) (.one rfl))
  have hargs : ∀ s, [Value.int 1, .int 2, .str "<&lt;"] ≠ [.html s] := nofun
  have hescape : escapeHtml "1 2<&lt;" = "1 2&lt;&amp;lt;" := by decide
  have hsafe := hescaped "1 2<&lt;"
  rw [hescape] at hsafe
  refine ⟨hargs, (hcall _ hargs _).mpr ⟨_, hprints, ?_⟩, hsafe.1, hsafe.2⟩
  exact congrArg Value.html hescape.symm

end Builtin
end Stencil
