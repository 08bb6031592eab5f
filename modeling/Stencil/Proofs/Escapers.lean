import Stencil.Builtin
import Stencil.Call

/-!
# What escapers make of numbers and texts

The digits of an integer are the same in markup and in script source, so no escaper changes what is
printed for an integer, and a text that has the content type of an escaper is left alone by it. Of all
other values nothing has to be known but that an escaper answers a text of its content type.
-/

namespace Stencil

/-! ### Texts that need no escaping -/

/-- The text of an integer consists of digits, apart from a sign. -/
theorem isDigit_of_mem_toString {i : Int} {c : Char} (h : c ∈ (toString i).toList) :
    c = '-' ∨ c.isDigit := by
  have hnat {n : Nat} (hmem : c ∈ n.repr.toList) : c.isDigit := by
    rw [Nat.toList_repr] at hmem
    exact Nat.isDigit_of_mem_toDigits (by decide) (by decide) hmem
  have hrepr : toString i = i.repr := rfl
  rw [hrepr, Int.repr_eq_if] at h
  split at h
  · exact .inr (hnat h)
  · rw [String.toList_append, List.mem_append] at h
    rcases h with hsign | hdigits
    · exact .inl (List.mem_singleton.mp hsign)
    · exact .inr (hnat hdigits)

/-- A character of an integer is no special one. -/
theorem ne_of_isDigit {c special : Char} (hc : c = '-' ∨ c.isDigit)
    (hspecial : (special == '-' || special.isDigit) = false) : c ≠ special := by
  rintro rfl
  rcases hc with rfl | hdigit
  · cases hspecial
  · rw [hdigit, Bool.or_true] at hspecial
    cases hspecial

/-- A text stays as it is if each of its characters does. -/
theorem join_map_eq_self {f : Char → String} {s : String} (h : ∀ c ∈ s.toList, f c = c.toString) :
    String.join (s.toList.map f) = s := by
  have hchars (cs : List Char) (hcs : ∀ c ∈ cs, f c = c.toString) :
      (cs.map f).flatMap String.toList = cs := by
    induction cs with
    | nil => rfl
    | cons c cs ih =>
      rw [List.map_cons, List.flatMap_cons, ih fun c' hc' => hcs c' (List.mem_cons_of_mem c hc'),
        hcs c List.mem_cons_self, Char.toString_eq_singleton, String.toList_singleton]
      rfl
  rw [← String.toList_inj, String.toList_join, hchars s.toList h]

namespace Builtin

/-- Escaping the digits of an integer for markup changes nothing. -/
theorem escapeHtml_toString (i : Int) : escapeHtml (toString i) = toString i := by
  refine join_map_eq_self fun c hc => ?_
  have hne {special : Char} (h : (special == '-' || special.isDigit) = false) : c ≠ special :=
    ne_of_isDigit (isDigit_of_mem_toString hc) h
  rw [escapeHtmlChar, if_neg (hne rfl), if_neg (hne rfl), if_neg (hne rfl), if_neg (hne rfl),
    if_neg (hne rfl), if_neg (hne rfl), if_neg (hne rfl)]

/-- Escaping the digits of an integer for script source changes nothing. -/
theorem escapeScript_toString (i : Int) : escapeScript (toString i) = toString i := by
  refine join_map_eq_self fun c hc => ?_
  have hne {special : Char} (h : (special == '-' || special.isDigit) = false) : c ≠ special :=
    ne_of_isDigit (isDigit_of_mem_toString hc) h
  rw [escapeScriptChar, if_neg (hne rfl), if_neg (hne rfl), if_neg (hne rfl), if_neg (hne rfl),
    if_neg (hne rfl)]

/-! ### Escapers on one operand -/

variable {schema : Schema}

/-- Escaping an integer for markup gives its digits. -/
theorem htmlEscaper_int (i : Int64) :
    htmlEscaper schema [.int i] = .ok (.html (toString i.toInt)) := by
  have hprinted : Value.printedAll schema [.int i] = .ok ("" ++ toString i.toInt ++ "") := rfl
  rw [htmlEscaper, hprinted]
  · simp only [String.empty_append, String.append_empty, escapeHtml_toString]
  · exact nofun

/-- Text of another kind than markup is escaped for markup. -/
theorem htmlEscaper_text {kind : TextKind} (hkind : kind ≠ .html) (s : String) :
    htmlEscaper schema [.text kind s] = .ok (.html (escapeHtml s)) := by
  have hprinted : Value.printedAll schema [.text kind s] = .ok ("" ++ s ++ "") := rfl
  rw [htmlEscaper, hprinted]
  · simp only [String.empty_append, String.append_empty]
  · rintro _ ⟨⟩
    exact hkind rfl

/-- The digits of an integer are printed in markup as the integer is. -/
theorem htmlEscaper_toString (kind : TextKind) (i : Int64) :
    htmlEscaper schema [.text kind (toString i.toInt)] = .ok (.html (toString i.toInt)) := by
  by_cases hkind : kind = .html
  · rw [hkind]
    rfl
  · rw [htmlEscaper_text hkind, escapeHtml_toString]

/-- Escaping an integer for script source gives its digits. -/
theorem jsEscaper_int (i : Int64) : jsEscaper schema [.int i] = .ok (.js (toString i.toInt)) := by
  have hjson : operandsJson schema [.int i] = .ok (.int i) := rfl
  rw [jsEscaper, hjson]
  · exact congrArg (fun s => Except.ok (Value.js s)) (escapeScript_toString i.toInt)
  · exact nofun

end Builtin

/-! ### Calls -/

/-- Whether a declared type decides what becomes of an escaper. -/
def ParamType.decides : ParamType → Bool
  | int | text _ => true
  | _ => false

/-- Whether the results of a function are of its declared type, if that decides about escapers. -/
def Function.KeepsType (f : Function) : Prop :=
  ∀ args v, Call.function f args = .ok v → f.sig.returns.decides → f.sig.returns.accepts v

namespace Call

variable {name : String} {v : Value}

/-- What is returned is the result of the body without its box. -/
theorem returned_eq_ok {r : Except String Value} (h : returned name r = .ok v) :
    ∃ w, r = .ok w ∧ w.unboxed = v := by
  cases r with
  | ok w =>
    cases h
    exact ⟨w, rfl, rfl⟩
  | error message => cases h

/-- The result of a call is what the body of the function returns. -/
theorem function_eq_ok {f : Function} {args : List Value} (h : function f args = .ok v) :
    ∃ args' w, enter f args' = .ok w ∧ w.unboxed = v := by
  unfold function at h
  cases hargs : prepare f.name f.sig args with
  | ok args' =>
    rw [hargs] at h
    exact ⟨args', returned_eq_ok h⟩
  | error e =>
    rw [hargs] at h
    cases h

/-- An argument that is accepted and not nil is passed as it is. -/
theorem coerce?_of_accepts {ty : ParamType} (hty : ty.accepts v) (hnil : v.isNil = false) :
    coerce? ty v = some v := by
  unfold coerce?
  split
  · cases hnil
  · cases hnil
  · rw [if_pos hty]

/-- A call with one operand of an escaper that takes any number of them. -/
theorem function_variadic {returns : ParamType}
    {body : List Value → List Value → Except String Value} (hnil : v.isNil = false) :
    function (.variadic name [] returns body) [v] = returned name (body [] [v]) := by
  have hprepare : prepare name ⟨[], some .any, returns⟩ [v] = .ok [v] := by
    have hv : coerce? .any v = some v := coerce?_of_accepts rfl hnil
    have hcoerced : coerceArgs name ⟨[], some .any, returns⟩ 0 [v] = .ok [v] := by
      simp only [coerceArgs, Signature.param?, List.getElem?_nil, Option.none_or, hv]
      rfl
    exact hcoerced
  simp only [function, Function.variadic, hprepare]
  rfl

/-- A call with the only operand of a function. -/
theorem function_unary {param returns : ParamType} {body : Value → Except String Value}
    (hv : param.accepts v) (hnil : v.isNil = false) :
    function (.unary name param returns body) [v] = returned name (body v) := by
  have hprepare : prepare name ⟨[param], none, returns⟩ [v] = .ok [v] := by
    have hcoerced : coerceArgs name ⟨[param], none, returns⟩ 0 [v] = .ok [v] := by
      simp only [coerceArgs, Signature.param?, List.getElem?_cons_zero, Option.some_or,
        coerce?_of_accepts hv hnil]
      rfl
    exact hcoerced
  simp only [function, Function.unary, hprepare]
  rfl

end Call

namespace Function

variable {name : String} {params : List ParamType} {param returns : ParamType}

/-- A variadic function keeps its type if its body does. -/
theorem KeepsType.variadic {body : List Value → List Value → Except String Value}
    (h : returns.decides → ∀ fixed tail v, body fixed tail = .ok v → returns.accepts v.unboxed) :
    (Function.variadic name params returns body).KeepsType := by
  intro args v hcall hdecides
  obtain ⟨args', w, hbody, rfl⟩ := Call.function_eq_ok hcall
  exact h hdecides _ _ w hbody

/-- A function of one argument keeps its type if its body does. -/
theorem KeepsType.unary {body : Value → Except String Value}
    (h : returns.decides → ∀ v w, body v = .ok w → returns.accepts w.unboxed) :
    (Function.unary name param returns body).KeepsType := by
  intro args v hcall hdecides
  obtain ⟨args', w, hbody, rfl⟩ := Call.function_eq_ok hcall
  exact h hdecides _ w hbody

end Function

namespace Builtin

/-- The markup escaper answers markup. -/
theorem htmlEscaper_eq_ok {schema : Schema} {args : List Value} {v : Value}
    (h : htmlEscaper schema args = .ok v) : ∃ s, v = .html s := by
  unfold htmlEscaper at h
  split at h
  · cases h
    exact ⟨_, rfl⟩
  · split at h
    · cases h
      exact ⟨_, rfl⟩
    · cases h

/-- The script escaper answers script source. -/
theorem jsEscaper_eq_ok {schema : Schema} {args : List Value} {v : Value}
    (h : jsEscaper schema args = .ok v) : ∃ s, v = .js s := by
  unfold jsEscaper at h
  split at h
  · cases h
    exact ⟨_, rfl⟩
  · cases hjson : operandsJson schema args with
    | ok j =>
      rw [hjson] at h
      cases h
      exact ⟨_, rfl⟩
    | error message =>
      rw [hjson] at h
      cases h

/-- A length is an integer. -/
theorem len_eq_ok {v w : Value} (h : len v = .ok w) : ∃ i, w = .int i := by
  unfold len at h
  split at h
  · cases h
    exact ⟨_, rfl⟩
  · cases h

/-- The escapers keep their types. -/
theorem keepsType_escapers (schema : Schema) : ∀ f ∈ escapers schema, f.KeepsType := by
  simp only [escapers, List.forall_mem_cons, List.not_mem_nil, false_implies, implies_true, and_true]
  refine ⟨.variadic fun _ _ tail v hv => ?_, .unary fun _ v w hw => ?_,
    .variadic fun _ _ tail v hv => ?_, .variadic fun _ _ tail v hv => ?_⟩
  · obtain ⟨s, rfl⟩ := htmlEscaper_eq_ok hv
    rfl
  · cases hw
    rfl
  · obtain ⟨s, rfl⟩ := jsEscaper_eq_ok hv
    rfl
  · cases hv
    rfl

/-- The functions on text keep their types. -/
theorem keepsType_textFunctions (schema : Schema) : ∀ f ∈ textFunctions schema, f.KeepsType := by
  simp only [textFunctions, List.forall_mem_cons, List.not_mem_nil, false_implies, implies_true,
    and_true]
  refine ⟨.variadic fun _ _ _ v hv => ?_, .variadic fun _ _ _ v hv => ?_, .unary fun _ v w hw => ?_,
    .unary nofun, .variadic nofun, .unary fun _ v w hw => ?_, .unary fun _ v w hw => ?_⟩
  · cases hv
    rfl
  · cases hv
    rfl
  · obtain ⟨i, rfl⟩ := len_eq_ok hw
    rfl
  · cases hw
    rfl
  · cases hw
    rfl

/-- The results of built-in functions are of their declared types. -/
theorem keepsType_all (schema : Schema) : ∀ f ∈ all schema, f.KeepsType :=
  List.forall_mem_append.mpr ⟨keepsType_escapers schema, keepsType_textFunctions schema⟩

end Builtin
end Stencil
