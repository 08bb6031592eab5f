import Stencil.Machine.Step

/-!
# Transitions

When an instruction succeeds and what it then leaves, told by rules: one rule for each way to go on with
the next instruction, and one for each way to jump. The rules say exactly what the step function does, so
what the steps of a run preserve is shown by cases on them.
-/

namespace Stencil

namespace Machine

/-- Whether a name stands for a result on a value, where the values below it may be arguments and so many
of them are taken: all of a method that is called, and none otherwise. -/
inductive Finds (schema : Schema) (name : String) (argc : Nat) (below : List Value) :
    (v : Value) → (taken : Nat) → (result : Value) → Prop where
  | entry (entries : List (Key × Value)) :
      Finds schema name argc below (.map .text entries) 0 (Value.entryFor name entries).unboxed
  | method {v receiver result : Value} {method : Method} (hmap : ∀ entries, v ≠ .map .text entries)
      (hmethod : v.method? schema name = some (method, receiver)) (hle : argc ≤ below.length)
      (hresult : Call.method method receiver (below.take argc) = .ok result) :
      Finds schema name argc below v argc result
  | nil {v : Value} (hmap : ∀ entries, v ≠ .map .text entries)
      (hmethod : v.method? schema name = none) (hreach : v.reach = none) :
      Finds schema name argc below v 0 .nil
  | field {v u result : Value} (hmap : ∀ entries, v ≠ .map .text entries)
      (hmethod : v.method? schema name = none) (hreach : v.reach = some u)
      (hresult : u.plainField schema name = .ok result) :
      Finds schema name argc below v 0 result

/-- Whether an instruction succeeds on a machine, to go on with the next one on another machine. -/
inductive Advances (schema : Schema) (t : Tables) (m : Machine) : Instr → Machine → Prop where
  | nop : Advances schema t m .nop m
  | mark : Advances schema t m .mark { m with marks := m.stack.length :: m.marks }
  | popToMark {depth : Nat} {marks : List Nat} (hmarks : m.marks = depth :: marks) :
      Advances schema t m (.pop 0) { m with stack := keepBottom depth m.stack, marks := marks }
  | pop {n : Nat} (hle : n + 1 ≤ m.stack.length) :
      Advances schema t m (.pop (n + 1)) { m with stack := m.stack.drop (n + 1) }
  | field {argc index taken : Nat} {name : String} {v result : Value} {below : List Value}
      (hname : t.strings[index]? = some name) (hstack : m.stack = v :: below)
      (hfinds : Finds schema name argc below v taken result) :
      Advances schema t m (.field argc index) { m with stack := result :: below.drop taken }
  | func {argc index : Nat} {f : Function} {result : Value} (hf : t.funcs[index]? = some f)
      (hle : argc ≤ m.stack.length) (hresult : Call.function f (m.stack.take argc) = .ok result) :
      Advances schema t m (.func argc index) { m with stack := result :: m.stack.drop argc }
  | var {name : Nat} {v : Value} (hget : Bindings.get? name m.bindings = some v) :
      Advances schema t m (.var name) (m.push v)
  | dot : Advances schema t m .dot (m.push m.dot)
  | iter {v : Value} {below : List Value} {it : Iteration} (hstack : m.stack = v :: below)
      (hstart : Iteration.start v = .ok it) :
      Advances schema t m .iter { m with iterations := it :: m.iterations }
  | turn {distance : Int} {it it' : Iteration} {rest : List Iteration} {position v : Value}
      {streams : Streams} (hiterations : m.iterations = it :: rest)
      (hnext : it.next? m.streams = some ((position, v), it', streams)) :
      Advances schema t m (.next distance)
        { m with stack := v :: position :: m.stack, iterations := it' :: rest, streams := streams }
  | jmpf {distance : Int} (htrue : m.stack.head?.any Value.isTrue = true) :
      Advances schema t m (.jmpf distance) m
  | jmpt {distance : Int} (hfalse : m.stack.head?.any Value.isTrue = false) :
      Advances schema t m (.jmpt distance) m
  | declare {name : Nat} {v : Value} {below : List Value} (hstack : m.stack = v :: below) :
      Advances schema t m (.setVar name false)
        { m with stack := below, bindings := (name, v) :: m.bindings }
  | assign {name : Nat} {v : Value} {below : List Value} {bindings : List (Nat × Value)}
      (hstack : m.stack = v :: below) (hassign : Bindings.assign? name v m.bindings = some bindings) :
      Advances schema t m (.setVar name true) { m with stack := below, bindings := bindings }
  | unsetVar {name : Nat} {bindings : List (Nat × Value)}
      (hremove : Bindings.remove? name m.bindings = some bindings) :
      Advances schema t m (.unsetVar name) { m with bindings := bindings }
  | print {v : Value} {below : List Value} {s : String} {sink : Sink} (hstack : m.stack = v :: below)
      (hprinted : v.printed schema = .ok s) (hwrite : m.sink.write s.toUTF8 = (sink, none)) :
      Advances schema t m .print { m with sink := sink }
  | pushDot {v : Value} {below : List Value} (hstack : m.stack = v :: below) :
      Advances schema t m .pushDot { m with dots := m.dot :: m.dots, dot := v }
  | popDot {v : Value} {dots : List Value} (hdots : m.dots = v :: dots) :
      Advances schema t m .popDot { m with dots := dots, dot := v }
  | string {index : Nat} {s : String} (hs : t.texts[index]? = some s) :
      Advances schema t m (.string index) (m.push (.str s))
  | val {index : Nat} {v : Value} (hv : t.values[index]? = some v) :
      Advances schema t m (.val index) (m.push v)
  | wb {index : Nat} {bytes : ByteArray} {sink : Sink} (hbytes : t.chunks[index]? = some bytes)
      (hwrite : m.sink.write bytes = (sink, none)) :
      Advances schema t m (.wb index) { m with sink := sink }

/-- Whether an instruction jumps over a distance, to go on with another machine. -/
inductive Jumps (m : Machine) : Instr → Int → Machine → Prop where
  | exhausted {distance : Int} {it : Iteration} {rest : List Iteration}
      (hiterations : m.iterations = it :: rest) (hnext : it.next? m.streams = none) :
      Jumps m (.next distance) distance { m with iterations := rest }
  | jmp {distance : Int} : Jumps m (.jmp distance) distance m
  | jmpf {distance : Int} (hfalse : m.stack.head?.any Value.isTrue = false) :
      Jumps m (.jmpf distance) distance m
  | jmpt {distance : Int} (htrue : m.stack.head?.any Value.isTrue = true) :
      Jumps m (.jmpt distance) distance m

end Machine

/-- Whether a step meets what is asked of the machine it leaves, for each way it may end. -/
def Step.Meets (next : Machine → Prop) (jump : Int → Machine → Prop) (fail : Machine → Prop) :
    Step → Prop
  | .next m => next m
  | .jump k m => jump k m
  | .fail _ m => fail m

namespace Machine

variable {schema : Schema} {t : Tables} {i : Instr} {m m' : Machine} {v result : Value} {name : String}
  {argc taken : Nat} {below : List Value} {k : Int} {e : RuntimeError}

/-- Whether a machine differs from an earlier one in its values and its output only. -/
def Retains (m m' : Machine) : Prop := ∃ stack sink, m' = { m with stack := stack, sink := sink }

/-! ### Parts of steps -/

/-- Operands are taken from the top of the stack if there are enough of them. -/
theorem popArgs?_eq_some {args : List Value} (h : m.popArgs? argc = some (args, m')) :
    argc ≤ m.stack.length ∧ args = m.stack.take argc ∧ m' = { m with stack := m.stack.drop argc } := by
  unfold popArgs? at h
  split at h
  · next hle =>
    cases h
    exact ⟨hle, rfl, rfl⟩
  · cases h

/-- A method takes no more values than there are, and everything else takes none. -/
theorem Finds.taken_le (h : Finds schema name argc below v taken result) :
    taken ≤ argc ∧ taken ≤ below.length := by
  cases h with
  | method _ _ hle => exact ⟨Nat.le_refl _, hle⟩
  | entry | nil | field => exact ⟨Nat.zero_le _, Nat.zero_le _⟩

/-- What a field access finds is pushed in the place of what it has taken. -/
theorem Finds.fieldOf_eq (h : Finds schema name argc m.stack v taken result) :
    m.fieldOf schema name argc v = .next { m with stack := result :: m.stack.drop taken } := by
  cases h with
  | entry entries => rfl
  | method hmap hmethod hle hresult =>
    unfold fieldOf
    split
    · exact absurd rfl (hmap _)
    · simp only [hmethod, popArgs?, if_pos hle, hresult, pushResult, push]
  | nil hmap hmethod hreach =>
    unfold fieldOf
    split
    · exact absurd rfl (hmap _)
    · simp only [hmethod, hreach, push, List.drop_zero]
  | field hmap hmethod hreach hresult =>
    unfold fieldOf
    split
    · exact absurd rfl (hmap _)
    · simp only [hmethod, hreach, hresult, pushResult, push, List.drop_zero]

section

variable {next fail : Machine → Prop} {jump : Int → Machine → Prop}

/-- A result is pushed, or the step fails with its error. -/
theorem meets_pushResult {r : Except RuntimeError Value}
    (h : ∀ result, r = .ok result → next (m.push result)) (hfail : fail m) :
    (m.pushResult r).Meets next jump fail := by
  cases r with
  | ok result => exact h result rfl
  | error e => exact hfail

/-- Writing goes on with the sink that has taken the bytes, or the step fails. -/
theorem meets_write {bytes : ByteArray}
    (h : ∀ sink, m.sink.write bytes = (sink, none) → next { m with sink := sink })
    (hfail : ∀ sink, fail { m with sink := sink }) : (m.write bytes).Meets next jump fail := by
  unfold write
  split
  · next sink hwrite => exact h sink hwrite
  · next sink _ _ => exact hfail sink

/-- A field access goes on with what it has found, or the step fails. -/
theorem meets_fieldOf (h : ∀ taken result, Finds schema name argc m.stack v taken result →
      next { m with stack := result :: m.stack.drop taken })
    (hfail : ∀ stack, fail { m with stack := stack }) :
    (m.fieldOf schema name argc v).Meets next jump fail := by
  unfold fieldOf
  split
  · next entries => exact h 0 _ (.entry entries)
  · next hmap =>
    split
    · next method receiver hmethod =>
      split
      · exact hfail m.stack
      · next args m₁ hargs =>
        obtain ⟨hle, rfl, rfl⟩ := popArgs?_eq_some hargs
        exact meets_pushResult (fun result hresult => h argc result (.method hmap hmethod hle hresult))
          (hfail _)
    · next hmethod =>
      split
      · next hreach => exact h 0 .nil (.nil hmap hmethod hreach)
      · next u hreach =>
        exact meets_pushResult (fun result hresult => h 0 result (.field hmap hmethod hreach hresult))
          (hfail m.stack)

/-- What takes the value on top of the stack fails where there is none. -/
theorem meets_top {rest : Value → List Value → Step} {reason : String} (hfail : fail m) :
    (∀ v below, m.stack = v :: below → (rest v below).Meets next jump fail) →
      Step.Meets next jump fail
        (match m.stack with
        | [] => m.invalid reason
        | v :: below => rest v below) := by
  intro h
  split
  · exact hfail
  · next v below hstack => exact h v below hstack

end

/-! ### Steps -/

/-- A step that goes on is told by a rule, and one that fails leaves all but values and output alone. -/
theorem meets_step (schema : Schema) (t : Tables) (m : Machine) (i : Instr) :
    (m.step schema t i).Meets (m.Advances schema t i) (m.Jumps i) m.Retains := by
  have hstack (stack : List Value) : m.Retains { m with stack := stack } := ⟨stack, m.sink, rfl⟩
  have hsink (sink : Sink) : m.Retains { m with sink := sink } := ⟨m.stack, sink, rfl⟩
  have hsame : m.Retains m := hstack m.stack
  cases i with
  | nop => exact .nop
  | mark => exact .mark
  | dot => exact .dot
  | jmp distance => exact .jmp
  | template ns index => exact hsame
  | string index =>
    rw [step]
    split
    · exact hsame
    · next s hs => exact .string hs
  | val index =>
    rw [step]
    split
    · exact hsame
    · next v hv => exact .val hv
  | var name =>
    rw [step]
    split
    · exact hsame
    · next v hget => exact .var hget
  | unsetVar name =>
    rw [step]
    split
    · exact hsame
    · next bindings hremove => exact .unsetVar hremove
  | pushDot => exact meets_top hsame fun _ _ htop => Advances.pushDot htop
  | wb index =>
    rw [step]
    split
    · exact hsame
    · next bytes hbytes => exact meets_write (fun _ hwrite => .wb hbytes hwrite) hsink
  | field argc index =>
    rw [step]
    split
    · exact hsame
    · next name hname =>
      exact meets_top hsame fun _ _ htop =>
        meets_fieldOf (fun _ _ hfinds => .field hname htop hfinds) hstack
  | pop n =>
    cases n with
    | zero =>
      rw [step]
      split
      · exact hsame
      · next depth marks hmarks => exact .popToMark hmarks
    | succ n =>
      rw [step]
      split
      · next hle => exact .pop hle
      · exact hsame
  | func argc index =>
    rw [step]
    split
    · exact hsame
    · next f hf =>
      split
      · exact hsame
      · next args m₁ hargs =>
        obtain ⟨hle, rfl, rfl⟩ := popArgs?_eq_some hargs
        exact meets_pushResult (fun _ hresult => .func hf hle hresult) (hstack _)
  | iter =>
    refine meets_top hsame fun v below htop => ?_
    split
    · exact hsame
    · next it hstart => exact .iter htop hstart
  | next distance =>
    rw [step]
    split
    · exact hsame
    · next it rest hiterations =>
      split
      · next hnext => exact .exhausted hiterations hnext
      · next position v it' streams hnext => exact .turn hiterations hnext
  | jmpf distance =>
    rw [step]
    split
    · next htrue => exact .jmpf htrue
    · next hfalse => exact .jmpf (eq_false_of_ne_true hfalse)
  | jmpt distance =>
    rw [step]
    split
    · next htrue => exact .jmpt htrue
    · next hfalse => exact .jmpt (eq_false_of_ne_true hfalse)
  | setVar name assign =>
    refine meets_top hsame fun v below htop => ?_
    cases assign with
    | false => exact .declare htop
    | true =>
      rw [if_pos rfl]
      split
      · exact hstack below
      · next bindings hassign => exact .assign htop hassign
  | print =>
    refine meets_top hsame fun v below htop => ?_
    rw [print_eq]
    split
    · exact hsame
    · next s hprinted => exact meets_write (fun _ hwrite => .print htop hprinted hwrite) hsink
  | popDot =>
    rw [step]
    split
    · exact hsame
    · next v dots hdots => exact .popDot hdots

/-- What an instruction is told to leave is what its step leaves. -/
theorem Advances.step_eq (h : m.Advances schema t i m') : m.step schema t i = .next m' := by
  cases h with
  | nop | mark | dot => rfl
  | popToMark hmarks => simp only [step, hmarks]
  | pop hle => simp only [step, if_pos hle]
  | @field argc index taken name v result below hname hstack hfinds =>
    simp only [step, hname, hstack]
    exact Finds.fieldOf_eq (m := { m with stack := below }) hfinds
  | func hf hle hresult => simp only [step, hf, popArgs?, if_pos hle, hresult, pushResult, push]
  | var hget => simp only [step, hget]
  | iter hstack hstart => simp only [step, hstack, hstart]
  | turn hiterations hnext => simp only [step, hiterations, hnext]
  | jmpf htrue => simp only [step, htrue, if_true]
  | jmpt hfalse => simp only [step, hfalse, Bool.false_eq_true, if_false]
  | declare hstack => simp only [step, hstack, Bool.false_eq_true, if_false, bind]
  | assign hstack hassign => simp only [step, hstack, if_true, hassign]
  | unsetVar hremove => simp only [step, hremove]
  | print hstack hprinted hwrite => simp only [step, hstack, print_eq, hprinted, write, hwrite]
  | pushDot hstack => simp only [step, hstack]
  | popDot hdots => simp only [step, hdots]
  | string hs => simp only [step, hs]
  | val hv => simp only [step, hv]
  | wb hbytes hwrite => simp only [step, hbytes, write, hwrite]

/-- Where an instruction is told to jump is where its step jumps. -/
theorem Jumps.step_eq (h : m.Jumps i k m') : m.step schema t i = .jump k m' := by
  cases h with
  | exhausted hiterations hnext => simp only [step, hiterations, hnext]
  | jmp => rfl
  | jmpf hfalse => simp only [step, hfalse, Bool.false_eq_true, if_false]
  | jmpt htrue => simp only [step, htrue, if_true]

/-- The rules tell exactly when an instruction goes on with the next one, and with which machine. -/
theorem step_eq_next : m.step schema t i = .next m' ↔ m.Advances schema t i m' := by
  refine ⟨fun h => ?_, Advances.step_eq⟩
  have hmeets := meets_step schema t m i
  rwa [h] at hmeets

/-- They tell exactly when it jumps. -/
theorem step_eq_jump : m.step schema t i = .jump k m' ↔ m.Jumps i k m' := by
  refine ⟨fun h => ?_, Jumps.step_eq⟩
  have hmeets := meets_step schema t m i
  rwa [h] at hmeets

/-- A step that fails has at most taken values and written. -/
theorem retains_of_step_fail (h : m.step schema t i = .fail e m') : m.Retains m' := by
  have hmeets := meets_step schema t m i
  rwa [h] at hmeets

/-- A jump is over the distance that its instruction names. -/
theorem Jumps.distance?_eq (h : m.Jumps i k m') : i.distance? = some k := by
  cases h <;> rfl

end Machine
end Stencil
