import Stencil.Proofs.Interning

/-!
# Names at run time

Instructions refer to the tables by index, and the machine knows variables by the indices of their names.
Since an index stands for one name, this is the same as to search the variables for one of the name, to
look the name up on a value, or to call the function of the name. The two variables that the machine binds
itself are those of the first two names.
-/

namespace Stencil

/-- An instruction with what its operand stands for in the place of an index. -/
inductive NamedInstr where
  | field (argc : Nat) (name : String)
  | func (argc : Nat) (name : String)
  | push (v : Value)
  | setVar (name : String) (assign : Bool)
  | unsetVar (name : String)
  | var (name : String)
  | write (bytes : ByteArray)

/-- Whether the operand of an instruction is the index that the addition of something has got. -/
inductive Instr.StandsFor (additions : List Addition) : Instr → NamedInstr → Prop where
  | field {argc i : Nat} {name : String} (h : Tables.Issued additions (.string name) i) :
      StandsFor additions (.field argc i) (.field argc name)
  | func {argc i : Nat} {f : Function} (h : Tables.Issued additions (.func f) i) :
      StandsFor additions (.func argc i) (.func argc f.name)
  | setVar {i : Nat} {name : String} {assign : Bool} (h : Tables.Issued additions (.string name) i) :
      StandsFor additions (.setVar i assign) (.setVar name assign)
  | string {i : Nat} {s : String} (h : Tables.Issued additions (.string s) i) :
      StandsFor additions (.string i) (.push (.str s))
  | unsetVar {i : Nat} {name : String} (h : Tables.Issued additions (.string name) i) :
      StandsFor additions (.unsetVar i) (.unsetVar name)
  | val {i : Nat} {v : Value} (h : Tables.Issued additions (.value v) i) :
      StandsFor additions (.val i) (.push v)
  | var {i : Nat} {name : String} (h : Tables.Issued additions (.string name) i) :
      StandsFor additions (.var i) (.var name)
  | wb {i : Nat} {bytes : ByteArray} (h : Tables.Issued additions (.chunk bytes) i) :
      StandsFor additions (.wb i) (.write bytes)

namespace Bindings

/-- Whether a binding is one of the variable of a name. -/
def isOf (t : Tables) (name : String) (b : Nat × Value) : Bool := t.strings[b.1]? == some name

/-- The value of the innermost binding of the variable of a name. -/
def getNamed? (t : Tables) (name : String) (bindings : List (Nat × Value)) : Option Value :=
  (bindings.find? (isOf t name)).map (·.2)

/-- Replace the value of the innermost binding of the variable of a name. -/
def assignNamed? (t : Tables) (name : String) (v : Value) (bindings : List (Nat × Value)) :
    Option (List (Nat × Value)) :=
  (bindings.findIdx? (isOf t name)).map fun k => bindings.modify k fun b => (b.1, v)

/-- Remove the innermost binding of the variable of a name. -/
def removeNamed? (t : Tables) (name : String) (bindings : List (Nat × Value)) :
    Option (List (Nat × Value)) :=
  (bindings.findIdx? (isOf t name)).map bindings.eraseIdx

end Bindings

namespace Machine

/-- Make a new binding of the variable of a name. -/
def bindNamed (t : Tables) (m : Machine) (name : String) (v : Value) : Machine :=
  match t.stringIndex[name]? with
  | some i => m.bind i v
  | none => m

/-- Execute an instruction by what its operand stands for. A function is the first one of its name. -/
def stepNamed (schema : Schema) (t : Tables) (functions : List Function) (m : Machine) :
    NamedInstr → Step
  | .field argc name =>
    match m.stack with
    | [] => m.invalid "stack underflow"
    | v :: stack => fieldOf schema { m with stack := stack } name argc v
  | .func argc name =>
    match functions.find? (·.name == name) with
    | none => m.invalid "no such function"
    | some f =>
      match m.popArgs? argc with
      | none => m.invalid "stack underflow"
      | some (args, m) => m.pushResult (Call.function f args)
  | .push v => .next (m.push v)
  | .setVar name assign =>
    match m.stack with
    | [] => m.invalid "stack underflow"
    | v :: stack =>
      let m := { m with stack := stack }
      if assign then
        match Bindings.assignNamed? t name v m.bindings with
        | none => .fail (.undefinedVariable name) m
        | some bindings => .next { m with bindings := bindings }
      else .next (m.bindNamed t name v)
  | .unsetVar name =>
    match Bindings.removeNamed? t name m.bindings with
    | none => .fail (.undefinedVariable name) m
    | some bindings => .next { m with bindings := bindings }
  | .var name =>
    match Bindings.getNamed? t name m.bindings with
    | none => .fail (.undefinedVariable name) m
    | some v => .next (m.push v)
  | .write bytes => m.write bytes

/-- The namespace and the template that a call names, and the data it passes. -/
def calleeNamed (ns name : String) (m : Machine) : Except RuntimeError (String × String × Value) :=
  match m.stack with
  | [] => .error (.invalidCode "stack underflow")
  | v :: _ => .ok (ns, name, v)

/-- Prepare the activation of a template: bind the root data by its name and, in a namespace, its view of
the render variables by theirs. -/
def activateNamed (t : Tables) (ns : String) (dot : Value) (m : Machine) : Machine :=
  let m := { m.bindNamed t "" dot with dot := dot }
  if ns.isEmpty then m
  else
    match Bindings.getNamed? t "Vars" m.bindings with
    | some (.map kind entries) => m.bindNamed t "Vars" (Value.unpackMap kind entries ns)
    | _ => m

end Machine

variable {t : Tables} {additions : List Addition} {i : Nat} {name : String}

/-! ### Variables -/

namespace Bindings

variable {v : Value} {bindings : List (Nat × Value)}

/-- The bindings of the variable of a name are those with the index of the name. -/
theorem isOf_eq (ht : t.Interned) (hname : t.strings[i]? = some name) :
    isOf t name = fun b => b.1 == i := by
  funext b
  rw [isOf, Bool.eq_iff_iff, beq_iff_eq, beq_iff_eq]
  constructor
  · exact fun hb => ht.strings.injective hb hname rfl
  · exact fun hb => hb ▸ hname

/-- In interned tables a variable is looked up under its name. -/
theorem getNamed?_eq (ht : t.Interned) (hname : t.strings[i]? = some name) :
    getNamed? t name bindings = get? i bindings := by
  rw [getNamed?, isOf_eq ht hname, get?]

/-- A change at the place of a binding behind the first one leaves the first one alone. -/
theorem map_findIdx?_cons {p : Nat × Value → Bool} {b : Nat × Value}
    (change : List (Nat × Value) → Nat → List (Nat × Value))
    (hchange : ∀ k, change (b :: bindings) (k + 1) = b :: change bindings k) (hb : p b = false) :
    ((b :: bindings).findIdx? p).map (change (b :: bindings)) =
      ((bindings.findIdx? p).map (change bindings)).map (b :: ·) := by
  rw [List.findIdx?_cons, hb]
  cases bindings.findIdx? p with
  | none => rfl
  | some k => exact congrArg some (hchange k)

/-- In interned tables a variable is assigned under its name. -/
theorem assignNamed?_eq (ht : t.Interned) (hname : t.strings[i]? = some name) :
    assignNamed? t name v bindings = assign? i v bindings := by
  induction bindings with
  | nil => rfl
  | cons b rest ih =>
    rw [assignNamed?, isOf_eq ht hname] at ih ⊢
    rw [assign?, ← ih]
    by_cases hb : b.1 = i
    · simp [List.findIdx?_cons, hb]
    · rw [if_neg hb]
      exact map_findIdx?_cons (fun bindings k => bindings.modify k fun b => (b.1, v)) (fun _ => rfl)
        (beq_eq_false_iff_ne.mpr hb)

/-- In interned tables a variable is removed under its name. -/
theorem removeNamed?_eq (ht : t.Interned) (hname : t.strings[i]? = some name) :
    removeNamed? t name bindings = remove? i bindings := by
  induction bindings with
  | nil => rfl
  | cons b rest ih =>
    rw [removeNamed?, isOf_eq ht hname] at ih ⊢
    rw [remove?, ← ih]
    by_cases hb : b.1 = i
    · simp [List.findIdx?_cons, hb]
    · rw [if_neg hb]
      exact map_findIdx?_cons List.eraseIdx (fun _ => rfl) (beq_eq_false_iff_ne.mpr hb)

end Bindings

/-! ### Instructions -/

namespace Machine

variable {m : Machine} {instr : Instr} {named : NamedInstr} {v : Value}

/-- In interned tables a variable is bound under its name. -/
theorem bindNamed_eq (ht : t.Interned) (hname : t.strings[i]? = some name) :
    m.bindNamed t name v = m.bind i v := by
  have hindex : t.stringIndex[name]? = some i := ht.strings.get? hname
  rw [bindNamed, hindex]

/-- An undeclared variable is reported by its name. -/
theorem unbound_eq (hname : t.strings[i]? = some name) : unbound t i = .undefinedVariable name := by
  rw [unbound, hname, Option.getD_some]

/-- An instruction does what it does by what its operand stands for. -/
theorem step_of_standsFor (h : instr.StandsFor additions named) (schema : Schema) (m : Machine) :
    m.step schema (Tables.empty.afterAll additions) instr =
      m.stepNamed schema (Tables.empty.afterAll additions) (Addition.functions additions) named := by
  have ht := Tables.interned_afterAll additions
  cases h with
  | field h =>
    cases hstack : m.stack <;> simp only [step, stepNamed, h.holds.1, hstack]
  | @func argc _ _ h =>
    obtain ⟨g, hg, hi⟩ := h.holds
    cases hargs : m.popArgs? argc <;> simp only [step, stepNamed, hg, hi, hargs]
  | setVar h =>
    have hname := h.holds.1
    simp only [stepNamed, Bindings.assignNamed?_eq ht hname, bindNamed_eq ht hname, ← unbound_eq hname]
    rfl
  | string h => simp only [step, stepNamed, h.holds.2]
  | unsetVar h =>
    have hname := h.holds.1
    simp only [stepNamed, Bindings.removeNamed?_eq ht hname, ← unbound_eq hname]
    rfl
  | @val i v h =>
    have hv : (Tables.empty.afterAll additions).values[i]? = some v := h.holds
    simp only [step, stepNamed, hv]
  | var h =>
    have hname := h.holds.1
    simp only [stepNamed, Bindings.getNamed?_eq ht hname, ← unbound_eq hname]
    rfl
  | @wb i bytes h =>
    have hbytes : (Tables.empty.afterAll additions).chunks[i]? = some bytes := h.holds
    simp only [step, stepNamed, hbytes]

/-- A callee is found by its name and the namespace of its caller. -/
theorem calleeNamed_eq {p : Program} {j : Nat} {ns : String} (hns : p.tables.strings[i]? = some ns)
    (hname : p.tables.strings[j]? = some name) : m.callee p i j = m.calleeNamed ns name := by
  rw [callee, hns, hname, calleeNamed]
  cases m.stack <;> rfl

/-- The variables that the machine binds itself are those of their names. -/
theorem activateNamed_eq (ht : t.Interned) (hroot : t.strings[Tables.rootVar]? = some "")
    (hvars : t.strings[Tables.varsVar]? = some "Vars") (ns : String) (dot : Value) :
    m.activateNamed t ns dot = m.activate ns dot := by
  simp only [activateNamed, bindNamed_eq ht hroot, bindNamed_eq ht hvars, Bindings.getNamed?_eq ht hvars]
  rfl

end Machine

namespace Tables

/-- Interning is a stable bijection. After any sequence of additions to the tables of a new program, and
so at every point of a longer one:

* an addition gets an index just if it shares that of an entry or its table has one left, and this index
  fits the operand of an instruction, which for a function has 16 bits;
* at the index that an addition has got, what was added is found, a string both as a name and as the text
  that is pushed for it, and of the functions of one name the first; whatever is added later, this stays;
* strings have one index just if they are equal, and functions just if they have one name;
* the empty string, which names the root data, has the index 0, and `Vars` the index 1;
* an instruction whose operand is such an index does what it does by name, and so do the activation of a
  template and a template call. -/
theorem interning_is_stable_bijection (schema : Schema) (entries : List Addition) :
    let all := created ++ entries
    let t := initial.afterAll entries
    (∀ a, (t.add a).isSome ↔ t.Shares a ∨ t.sizeFor a < a.limit) ∧
    (∀ a i, Issued all a i → i < a.limit ∧ t.Holds (Addition.functions all) a i) ∧
    (∀ later, t.Extends (initial.afterAll (entries ++ later))) ∧
    (∀ s s' i i', Issued all (.string s) i → Issued all (.string s') i' → (i = i' ↔ s = s')) ∧
    (∀ f f' i i', Issued all (.func f) i → Issued all (.func f') i' → (i = i' ↔ f.name = f'.name)) ∧
    Issued all (.string "") rootVar ∧ Issued all (.string "Vars") varsVar ∧
    (∀ m instr named, instr.StandsFor all named →
      Machine.step schema t m instr = m.stepNamed schema t (Addition.functions all) named) ∧
    (∀ m ns dot, Machine.activate ns dot m = m.activateNamed t ns dot) ∧
    ∀ p m i j ns name, p.tables = t → Issued all (.string ns) i → Issued all (.string name) j →
      Machine.callee p i j m = m.calleeNamed ns name := by
  intro all t
  have heq : t = empty.afterAll all := initial_afterAll entries
  have ht : t.Interned := heq ▸ interned_afterAll all
  have hholds : ∀ a i, Issued all a i → t.Holds (Addition.functions all) a i :=
    fun a i h => heq ▸ h.holds
  have hroot : Issued all (.string "") rootVar := ⟨[], _, _, rfl, rfl⟩
  have hvars : Issued all (.string "Vars") varsVar := ⟨[.string ""], _, _, rfl, rfl⟩
  refine ⟨ht.isSome_add_iff, fun a i h => ⟨h.lt_limit, hholds a i h⟩, ?_,
    fun _ _ _ _ => Issued.eq_iff_of_string, fun _ _ _ _ => Issued.eq_iff_of_func, hroot, hvars, ?_, ?_, ?_⟩
  · intro later
    rw [afterAll_append]
    exact extends_afterAll t later
  · intro m instr named h
    rw [heq]
    exact Machine.step_of_standsFor h schema m
  · intro m ns dot
    exact (Machine.activateNamed_eq ht (hholds _ _ hroot).1 (hholds _ _ hvars).1 ns dot).symm
  · intro p m i j ns name hp hns hname
    exact Machine.calleeNamed_eq (hp ▸ (hholds _ _ hns).1) (hp ▸ (hholds _ _ hname).1)

namespace Sample

/-- Two functions of one name. -/
def answer (b : Bool) : Function := ⟨"answer", ⟨[], none, .bool⟩, true, fun _ => .ok (.bool b), none⟩

/-- A string and a function are added, and both once more after a value. -/
def repeated : List Addition :=
  [.string "x", .func (answer true), .value (.int 1), .string "x", .func (answer false)]

end Sample

/-- In the sample `x` gets an index of its own both times, and calls of the second function are calls of the
first one. -/
theorem interning_is_stable_bijection_sample :
    let all := created ++ Sample.repeated
    let t := initial.afterAll Sample.repeated
    Issued all (.string "x") 2 ∧ Issued all (.func (Sample.answer false)) 0 ∧
    (2 = varsVar ↔ "x" = "Vars") ∧ t.strings[2]? = some "x" ∧ t.texts[2]? = some "x" ∧
    (∃ g, (Addition.functions all).find? (·.name == "answer") = some g ∧ t.funcs[0]? = some g) ∧
    ∀ m, Machine.step .plain t m (.var 2) =
      m.stepNamed .plain t (Addition.functions all) (.var "x") := by
  intro all t
  have hx : Issued all (.string "x") 2 :=
    ⟨created ++ [.string "x", .func (Sample.answer true), .value (.int 1)], _, _, rfl, rfl⟩
  have hanswer : Issued all (.func (Sample.answer false)) 0 :=
    ⟨created ++ [.string "x", .func (Sample.answer true), .value (.int 1), .string "x"], _, _, rfl, rfl⟩
  obtain ⟨-, hholds, -, hstrings, -, -, hvars, hstep, -⟩ :=
    interning_is_stable_bijection .plain Sample.repeated
  have hname := (hholds _ _ hx).2
  exact ⟨hx, hanswer, hstrings _ _ _ _ hx hvars, hname.1, hname.2, (hholds _ _ hanswer).2,
    fun m => hstep m _ _ (.var hx)⟩

end Tables
end Stencil
