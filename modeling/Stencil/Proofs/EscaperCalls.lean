import Stencil.Proofs.Balance
import Stencil.Proofs.Registries

/-!
# Calls of escapers

What a call of an escaper does to the result of a function, as far as the declared type of the function
tells what it is. A call on a text of the content type of the escaper changes nothing, and a call on an
integer changes nothing that shows when the result is printed. Removing values does not show what they
are either, so in the end only what has been written can differ, and it does not.
-/

namespace Stencil

variable {schema : Schema} {t t' : Tables} {m : Machine} {f : Function} {argc index : Nat}
  {known : Option ParamType} {o o' : Outcome} {stack : List Value} {v w : Value}

namespace Outcome

/-- Go on from the end of a run, unless it failed. -/
def bind (o : Outcome) (next : Machine → Outcome) : Outcome :=
  match o with
  | done m => next m
  | failed e sink streams => failed e sink streams

/-- Whether the value on top of the stack is of the type that is known, if that decides about
escapers. -/
def Tops (known : Option ParamType) (o : Outcome) : Prop :=
  ∀ (m : Machine) ty, o = done m → known = some ty → ty.decides →
    ∃ v stack, m = { m with stack := v :: stack } ∧ ty.accepts v

/-- Whether two runs end in the same way, with a value of the type that is known. -/
def Same (known : Option ParamType) (o o' : Outcome) : Prop := o = o' ∧ o.Tops known

end Outcome

namespace Machine

/-- Steps go on from where earlier steps end. -/
theorem steps_append_eq_bind (code rest : List Instr) (m : Machine) :
    m.steps schema t (code ++ rest) = (m.steps schema t code).bind (·.steps schema t rest) :=
  steps_append code rest m

/-- How a call of a function with values from the stack ends. -/
def called (f : Function) (argc : Nat) (m : Machine) : Outcome :=
  match m.popArgs? argc with
  | none => .failed (.invalidCode "stack underflow") m.sink m.streams
  | some (args, l) =>
    match Call.function f args with
    | .ok v => .done (l.push v)
    | .error e => .failed e l.sink l.streams

/-- A call instruction calls the function that it refers to. -/
theorem steps_func (hf : t.funcs[index]? = some f) (m : Machine) :
    m.steps schema t [.func argc index] = m.called f argc := by
  simp only [steps, step, hf, called]
  cases m.popArgs? argc with
  | none => rfl
  | some r =>
    simp only
    cases Call.function f r.1 <;> rfl

/-- A call that succeeds has pushed the result of the function. -/
theorem called_eq_done {m' : Machine} (h : m.called f argc = .done m') :
    ∃ args v stack, Call.function f args = .ok v ∧ m' = { m' with stack := v :: stack } := by
  unfold called at h
  cases hargs : m.popArgs? argc with
  | none =>
    rw [hargs] at h
    cases h
  | some r =>
    obtain ⟨args, l⟩ := r
    simp only [hargs] at h
    cases hv : Call.function f args with
    | error e =>
      rw [hv] at h
      cases h
    | ok v =>
      rw [hv] at h
      cases h
      exact ⟨args, v, l.stack, hv, rfl⟩

/-- A single argument is taken from the top of the stack. -/
theorem popArgs?_one (m : Machine) (v : Value) (stack : List Value) :
    popArgs? { m with stack := v :: stack } 1 = some ([v], { m with stack := stack }) :=
  if_pos (Nat.le_add_left 1 stack.length)

/-- A call with the value on top of the stack puts its result in the place of the value. -/
theorem called_of_eq_ok (hcall : Call.function f [v] = .ok w) :
    called f 1 { m with stack := v :: stack } = .done { m with stack := w :: stack } := by
  simp only [called, popArgs?_one, hcall, push]

/-- Only the results of functions on the value on top of the stack count. -/
theorem called_congr {g : Function} (hcall : Call.function f [v] = Call.function g [v]) :
    called f 1 { m with stack := v :: stack } = called g 1 { m with stack := v :: stack } := by
  simp only [called, popArgs?_one, hcall]

end Machine

/-- The result of a function that keeps its type is of that type. -/
theorem Function.KeepsType.tops (hf : f.KeepsType) (argc : Nat) (o : Outcome) :
    (o.bind (·.called f argc)).Tops (some f.sig.returns) := by
  rintro m ty hdone ⟨⟩ hdecides
  cases o with
  | failed e sink streams => cases hdone
  | done l =>
    obtain ⟨args, v, stack, hcall, hm⟩ := Machine.called_eq_done hdone
    exact ⟨v, stack, hm, hf args v hcall hdecides⟩

namespace Builtin

/-- The escaper for markup. -/
def htmlFunction (schema : Schema) : Function :=
  .variadic htmlEscaperName [] (.text .html) fun _ tail => htmlEscaper schema tail

/-- The escaper for one text in markup. -/
def htmlStringFunction : Function :=
  .unary htmlStringEscaperName (.text .plain) (.text .html) fun v =>
    .ok (.html (escapeHtml (v.text?.getD "")))

/-- The escaper for script source. -/
def jsFunction (schema : Schema) : Function :=
  .variadic jsEscaperName [] (.text .js) fun _ tail => jsEscaper schema tail

/-- The markup escaper is one of the escapers. -/
theorem htmlFunction_mem (schema : Schema) : htmlFunction schema ∈ escapers schema :=
  List.mem_cons_self

/-- The markup escaper for strings is one of the escapers. -/
theorem htmlStringFunction_mem (schema : Schema) : htmlStringFunction ∈ escapers schema :=
  List.mem_cons_of_mem _ List.mem_cons_self

/-- The script escaper is one of the escapers. -/
theorem jsFunction_mem (schema : Schema) : jsFunction schema ∈ escapers schema :=
  List.mem_cons_of_mem _ (List.mem_cons_of_mem _ List.mem_cons_self)

/-! ### On one value -/

/-- Escaping an integer for markup gives its digits. -/
theorem call_htmlFunction_int (i : Int64) :
    Call.function (htmlFunction schema) [.int i] = .ok (.html (toString i.toInt)) := by
  rw [htmlFunction, Call.function_variadic rfl, htmlEscaper_int]
  rfl

/-- Escaping the digits of an integer for markup leaves them as they are. -/
theorem call_htmlFunction_toString (kind : TextKind) (i : Int64) :
    Call.function (htmlFunction schema) [.text kind (toString i.toInt)] =
      .ok (.html (toString i.toInt)) := by
  rw [htmlFunction, Call.function_variadic rfl, htmlEscaper_toString]
  rfl

/-- Markup is not escaped again. -/
theorem call_htmlFunction_html (s : String) :
    Call.function (htmlFunction schema) [.html s] = .ok (.html s) := by
  rw [htmlFunction, Call.function_variadic rfl]
  rfl

/-- On a text without a content type the escaper for one text does the same as that for markup. -/
theorem call_htmlStringFunction (schema : Schema) (s : String) :
    Call.function htmlStringFunction [.str s] = Call.function (htmlFunction schema) [.str s] := by
  rw [htmlStringFunction, Call.function_unary rfl rfl, htmlFunction, Call.function_variadic rfl,
    htmlEscaper_text (show TextKind.plain ≠ .html by decide)]
  rfl

/-- Escaping an integer for script source gives its digits. -/
theorem call_jsFunction_int (i : Int64) :
    Call.function (jsFunction schema) [.int i] = .ok (.js (toString i.toInt)) := by
  rw [jsFunction, Call.function_variadic rfl, jsEscaper_int]
  rfl

/-- Script source is not escaped again. -/
theorem call_jsFunction_js (s : String) :
    Call.function (jsFunction schema) [.js s] = .ok (.js s) := by
  rw [jsFunction, Call.function_variadic rfl]
  rfl

end Builtin

/-! ### On results of functions -/

open Builtin

/-- What is accepted as an integer is one. -/
theorem ParamType.eq_int_of_accepts (h : int.accepts v) : ∃ i, v = .int i := by
  cases v <;> first | exact ⟨_, rfl⟩ | cases h

/-- What is accepted as a text of a kind is one. -/
theorem ParamType.eq_text_of_accepts {kind : TextKind} (h : (text kind).accepts v) :
    ∃ s, v = .text kind s := by
  cases v with
  | text k s =>
    have hkind : (kind == k) = true := h
    rw [beq_iff_eq] at hkind
    exact ⟨s, by rw [hkind]⟩
  | _ => cases h

/-- Whether two runs end in the same way but for an integer on top of the stack, which may be a text
of its digits in the second one if it is known to be an integer in the first one. -/
inductive Outcome.Agrees (known : Option ParamType) : (o o' : Outcome) → Prop where
  | same {o : Outcome} (htops : o.Tops known) : Agrees known o o
  | digits {m : Machine} {stack : List Value} (i : Int64) (kind : TextKind)
      (hint : known = some .int) :
    Agrees known (.done { m with stack := .int i :: stack })
      (.done { m with stack := .text kind (toString i.toInt) :: stack })

namespace Outcome

/-- What is declared to be an integer is one on top of the stack, unless the code fails. -/
theorem Tops.int (h : o.Tops (some .int)) :
    o.Fails ∨ ∃ (m : Machine) (stack : List Value) (i : Int64),
      o = .done { m with stack := .int i :: stack } := by
  cases o with
  | failed e sink streams => exact .inl trivial
  | done m =>
    obtain ⟨v, stack, hm, hv⟩ := h m .int rfl rfl rfl
    obtain ⟨i, rfl⟩ := ParamType.eq_int_of_accepts hv
    exact .inr ⟨m, stack, i, congrArg done hm⟩

/-- What is declared to be a text of a kind is one on top of the stack, unless the code fails. -/
theorem Tops.text {kind : TextKind} (h : o.Tops (some (.text kind))) :
    o.Fails ∨ ∃ (m : Machine) (stack : List Value) (s : String),
      o = .done { m with stack := .text kind s :: stack } := by
  cases o with
  | failed e sink streams => exact .inl trivial
  | done m =>
    obtain ⟨v, stack, hm, hv⟩ := h m (.text kind) rfl rfl rfl
    obtain ⟨s, rfl⟩ := ParamType.eq_text_of_accepts hv
    exact .inr ⟨m, stack, s, congrArg done hm⟩

/-- Nothing happens after a failure. -/
theorem bind_of_fails {next : Machine → Outcome} (h : o.Fails) : o.bind next = o := by
  cases o with
  | done m => cases h
  | failed e sink streams => rfl

/-- Outcomes that are the same agree. -/
theorem Same.agrees (h : Same known o o') : Agrees known o o' := by
  obtain ⟨rfl, htops⟩ := h
  exact .same htops

/-- Unless there is an integer, the runs are the same. -/
theorem Agrees.same_of_ne (h : Agrees known o o') (hknown : known ≠ some .int) : Same known o o' := by
  cases h with
  | same htops => exact ⟨rfl, htops⟩
  | digits i kind hint => exact (hknown hint).elim

/-- The same function may be called on both sides. -/
theorem Same.call (h : Same known o o') (hf : f.KeepsType) (argc : Nat) :
    Agrees (some f.sig.returns) (o.bind (·.called f argc)) (o'.bind (·.called f argc)) := by
  obtain ⟨rfl, -⟩ := h
  exact .same (hf.tops argc o)

/-- The escaper for script source may be left out where an integer is printed. -/
theorem Same.js_int (h : Same (some .int) o o') :
    Agrees (some .int) o (o'.bind (·.called (jsFunction schema) 1)) := by
  obtain ⟨rfl, htops⟩ := h
  rcases htops.int with hfails | ⟨m, stack, i, rfl⟩
  · rw [bind_of_fails hfails]
    exact .same htops
  · rw [bind, Machine.called_of_eq_ok (call_jsFunction_int i)]
    exact .digits i .js rfl

/-- The escaper for script source may be left out on script source. -/
theorem Same.js_js (h : Same (some (.text .js)) o o') :
    Agrees (some (.text .js)) o (o'.bind (·.called (jsFunction schema) 1)) := by
  obtain ⟨rfl, htops⟩ := h
  rcases htops.text with hfails | ⟨m, stack, s, rfl⟩
  · rw [bind_of_fails hfails]
    exact .same htops
  · rw [bind, Machine.called_of_eq_ok (call_jsFunction_js s)]
    exact .same htops

/-- The escaper for markup may be left out where an integer is printed. -/
theorem Agrees.html_int (h : Agrees (some .int) o o') :
    Agrees (some .int) o (o'.bind (·.called (htmlFunction schema) 1)) := by
  cases h with
  | same htops =>
    rcases htops.int with hfails | ⟨m, stack, i, rfl⟩
    · rw [bind_of_fails hfails]
      exact .same htops
    · rw [bind, Machine.called_of_eq_ok (call_htmlFunction_int i)]
      exact .digits i .html rfl
  | digits i kind hint =>
    rw [bind, Machine.called_of_eq_ok (call_htmlFunction_toString kind i)]
    exact .digits i .html rfl

/-- The escaper for markup may be left out on markup. -/
theorem Agrees.html_html (h : Agrees (some (.text .html)) o o') :
    Agrees (some (.text .html)) o (o'.bind (·.called (htmlFunction schema) 1)) := by
  obtain ⟨rfl, htops⟩ := h.same_of_ne nofun
  rcases htops.text with hfails | ⟨m, stack, s, rfl⟩
  · rw [bind_of_fails hfails]
    exact .same htops
  · rw [bind, Machine.called_of_eq_ok (call_htmlFunction_html s)]
    exact .same htops

/-- On a text without a content type the escaper for one text may take the place of that for
markup. -/
theorem Agrees.html_plain (h : Agrees (some (.text .plain)) o o') :
    Agrees (some (.text .html)) (o.bind (·.called htmlStringFunction 1))
      (o'.bind (·.called (htmlFunction schema) 1)) := by
  obtain ⟨rfl, htops⟩ := h.same_of_ne nofun
  have hsame : o.bind (·.called htmlStringFunction 1) =
      o.bind (·.called (htmlFunction schema) 1) := by
    rcases htops.text with hfails | ⟨m, stack, s, rfl⟩
    · rw [bind_of_fails hfails, bind_of_fails hfails]
    · exact Machine.called_congr (call_htmlStringFunction schema s)
  rw [hsame]
  exact .same ((keepsType_escapers schema _ (htmlFunction_mem schema)).tops 1 o)

end Outcome

/-! ### What is seen of them -/

/-- The machine with nothing known about its values but how many there are. -/
def Machine.hideValues (m : Machine) : Machine :=
  { m with stack := m.stack.map fun _ => .nil }

namespace Machine

/-- Printing shows no difference between an integer and a text of its digits. -/
theorem printed_of_agrees (h : o.Agrees known o') :
    (o.bind (·.steps schema t [.print])).map hideValues =
      (o'.bind (·.steps schema t' [.print])).map hideValues := by
  cases h with
  | same htops => cases o <;> rfl
  | @digits m stack i kind hint =>
    have hint : Value.printed schema (.int i) = .ok (toString i.toInt) := rfl
    have htext : Value.printed schema (.text kind (toString i.toInt)) = .ok (toString i.toInt) := rfl
    simp only [Outcome.bind, steps, step, print_eq, hint, htext, write]
    cases m.sink.write (toString i.toInt).toUTF8 with
    | mk sink failure => cases failure <;> rfl

/-- What is kept of a stack does not depend on what the values are. -/
theorem keepBottom_map {α β : Type} (g : α → β) (n : Nat) (xs : List α) :
    keepBottom n (xs.map g) = (keepBottom n xs).map g := by
  rw [keepBottom, keepBottom, List.length_map, List.map_drop]

/-- Removing values does not show what they are. -/
theorem steps_pop_hideValues (n : Nat) (m : Machine) :
    m.hideValues.steps schema t [.pop n] = (m.steps schema t' [.pop n]).map hideValues := by
  cases n with
  | zero =>
    simp only [steps, step, hideValues]
    cases m.marks with
    | nil => rfl
    | cons depth marks => simp only [keepBottom_map, Outcome.map, hideValues]
  | succ n =>
    simp only [steps, step, hideValues, List.length_map]
    by_cases hle : n + 1 ≤ m.stack.length
    · simp only [if_pos hle, Outcome.map, hideValues, List.map_drop]
    · simp only [if_neg hle, invalid, Outcome.map]

/-- Removing values does not depend on what they are. -/
theorem steps_popCode_hideValues (pop : Option Nat) (m : Machine) :
    m.hideValues.steps schema t (Compile.popCode pop) =
      (m.steps schema t' (Compile.popCode pop)).map hideValues := by
  cases pop with
  | none => rfl
  | some n => exact steps_pop_hideValues n m

/-- Removing what an action leaves does not show what it is. -/
theorem bind_popCode_hideValues (pop : Option Nat)
    (h : o.map hideValues = o'.map hideValues) :
    (o.bind (·.steps schema t (Compile.popCode pop))).map hideValues =
      (o'.bind (·.steps schema t' (Compile.popCode pop))).map hideValues := by
  have hpop (r : Outcome) (u : Tables) :
      (r.bind (·.steps schema u (Compile.popCode pop))).map hideValues =
        (r.map hideValues).bind (·.steps schema t (Compile.popCode pop)) := by
    cases r with
    | failed e sink streams => rfl
    | done m => exact (steps_popCode_hideValues pop m).symm
  rw [hpop, hpop, h]

end Machine
end Stencil
