import Stencil.Proofs.Parts
import Stencil.Proofs.Trails

/-!
# Addressability

Where addressable records come from. Whatever a machine holds, each addressable record in it has been
gained on the way: by following a pointer, from a sequence that is iterated over, or as a field of an
addressable record. Calls and look-ups in maps mark nothing. But a function or a method may hand back a
record that it has been passed, and then the record is still addressable.
-/

namespace Stencil

namespace Bindings

variable {name : Nat} {v : Value} {b : Nat × Value} {bindings after : List (Nat × Value)}

/-- A binding behind an assignment is the assigned one or an old one. -/
theorem mem_of_mem_assign? (h : assign? name v bindings = some after) (hb : b ∈ after) :
    b = (name, v) ∨ b ∈ bindings := by
  induction bindings generalizing after with
  | nil => cases h
  | cons c rest ih =>
    rw [assign?] at h
    split at h
    · cases h
      exact (List.mem_cons.mp hb).imp_right (List.mem_cons_of_mem _)
    · obtain ⟨after, hafter, rfl⟩ := Option.map_eq_some_iff.mp h
      rcases List.mem_cons.mp hb with rfl | hb
      · exact .inr List.mem_cons_self
      · exact (ih hafter hb).imp_right (List.mem_cons_of_mem _)

/-- A binding behind an unbinding is an old one. -/
theorem mem_of_mem_remove? (h : remove? name bindings = some after) (hb : b ∈ after) : b ∈ bindings := by
  induction bindings generalizing after with
  | nil => cases h
  | cons c rest ih =>
    rw [remove?] at h
    split at h
    · cases h
      exact List.mem_cons_of_mem _ hb
    · obtain ⟨after, hafter, rfl⟩ := Option.map_eq_some_iff.mp h
      rcases List.mem_cons.mp hb with rfl | hb
      · exact List.mem_cons_self
      · exact List.mem_cons_of_mem _ (ih hafter hb)

end Bindings

namespace Call

variable {name : String} {sig : Signature} {args passed : List Value} {f : Function} {method : Method}
  {receiver w : Value}

/-- What is returned is the result without its box. -/
theorem returned_eq_ok_iff {r : Except String Value} :
    returned name r = .ok w ↔ ∃ v, r = .ok v ∧ w = v.unboxed := by
  cases r with
  | error => exact iff_of_false nofun nofun
  | ok v => simp [returned, eq_comm]

/-- Arguments that a callee is passed have been coerced. -/
theorem coerceArgs_of_prepare (h : prepare name sig args = .ok passed) :
    coerceArgs name sig 0 args = .ok passed := by
  unfold prepare at h
  cases harity : checkArity name sig args.length with
  | error e => rw [harity] at h; cases h
  | ok => rw [harity] at h; exact h

/-- A function that returns has been entered with prepared arguments. -/
theorem function_eq_ok_iff : function f args = .ok w ↔
    ∃ passed v, prepare f.name f.sig args = .ok passed ∧ enter f passed = .ok v ∧ w = v.unboxed := by
  unfold function
  cases hpassed : prepare f.name f.sig args with
  | error e => exact iff_of_false nofun nofun
  | ok passed => simpa [bind, Except.bind] using returned_eq_ok_iff

/-- A method that returns has been entered with prepared arguments. -/
theorem method_eq_ok_iff : Call.method method receiver args = .ok w ↔
    ∃ passed v, prepare method.name method.sig args = .ok passed ∧
      method.call receiver (pack method.sig passed) = .ok v ∧ w = v.unboxed := by
  unfold Call.method
  cases hpassed : prepare method.name method.sig args with
  | error e => exact iff_of_false nofun nofun
  | ok passed => simpa [bind, Except.bind] using returned_eq_ok_iff

end Call

namespace Machine

variable {schema : Schema} {t : Tables} {m m' : Machine} {i : Instr} {outer inner : Value → Prop}
  {v w r : Value} {passed : List Value}

/-- The values that a machine holds, and those that its streams have yet to deliver. -/
def values (m : Machine) : List Value :=
  m.stack ++ m.bindings.map (·.2) ++ m.dot :: m.dots ++ m.iterations.flatMap Iteration.values ++
    m.streams.queues.flatten

/-- Whether an instruction marks a record as addressable: by following a pointer, that is an argument of
a call or that the value of a field access leads to, as an element of a sequence, or as a field of an
addressable record. -/
inductive Gains (t : Tables) (m : Machine) : Instr → Value → Prop where
  | argument {i : Instr} {ty : RecordType} {fields : List Value} {addressable : Bool}
      (hcall : (∃ argc index, i = .func argc index) ∨ ∃ argc index, i = .field argc index)
      (hmem : .ptr (.record ty fields addressable) ∈ m.stack.take i.takes) :
      Gains t m i (.record ty fields true)
  | target {argc index : Nat} {v : Value} {rest : List Value} {ty : RecordType} {fields : List Value}
      {addressable : Bool} (hstack : m.stack = v :: rest)
      (hleads : v.LeadsTo (.ptr (.record ty fields addressable))) :
      Gains t m (.field argc index) (.record ty fields true)
  | element {v : Value} {rest items : List Value} {ty : RecordType} {fields : List Value}
      {addressable : Bool} (hstack : m.stack = v :: rest) (hleads : v.LeadsTo (.seq items))
      (hmem : .record ty fields addressable ∈ items) : Gains t m .iter (.record ty fields true)
  | field {argc index : Nat} {name : String} {v u w : Value} {rest : List Value}
      (hname : t.strings[index]? = some name) (hstack : m.stack = v :: rest) (hleads : v.LeadsTo u)
      (hparent : u.isAddressable = true) (hfield : u.field? name = some w) :
      Gains t m (.field argc index) w

/-- Whether an instruction calls a function or a method that is passed values, the receiver of a method
among them, and answers a value. -/
inductive Returns (schema : Schema) (t : Tables) (m : Machine) : Instr → List Value → Value → Prop where
  | function {argc index : Nat} {f : Function} {args passed : List Value} {m' : Machine} {v : Value}
      (hf : t.funcs[index]? = some f) (hargs : m.popArgs? argc = some (args, m'))
      (hpassed : Call.prepare f.name f.sig args = .ok passed) (hv : Call.enter f passed = .ok v) :
      Returns schema t m (.func argc index) passed v
  | method {argc index : Nat} {name : String} {top receiver v : Value} {rest args passed : List Value}
      {method : Method} {m' : Machine} (hname : t.strings[index]? = some name)
      (hstack : m.stack = top :: rest) (hmap : ∀ entries, top ≠ .map .text entries)
      (happlies : top.Applies schema name method receiver)
      (hargs : { m with stack := rest }.popArgs? argc = some (args, m'))
      (hpassed : Call.prepare method.name method.sig args = .ok passed)
      (hv : method.call receiver (Call.pack method.sig passed) = .ok v) :
      Returns schema t m (.field argc index) (receiver :: passed) v

/-- Whether the values that a machine holds are marked. -/
structure Marked (outer inner : Value → Prop) (m : Machine) : Prop where
  stack : ∀ v ∈ m.stack, v.Marked outer inner
  bindings : ∀ b ∈ m.bindings, b.2.Marked outer inner
  dot : m.dot.Marked outer inner
  dots : ∀ v ∈ m.dots, v.Marked outer inner
  iterations : ∀ it ∈ m.iterations, ∀ v ∈ it.values, v.Marked outer inner
  streams : ∀ queue ∈ m.streams.queues, ∀ v ∈ queue, v.Marked outer inner

/-- A machine has only marked records exactly if each of its values has. -/
theorem marked_iff : m.Marked outer inner ↔ ∀ v ∈ m.values, v.Marked outer inner := by
  simp only [values, List.forall_mem_append, List.forall_mem_cons, List.forall_mem_map,
    List.forall_mem_flatMap, List.forall_mem_flatten]
  constructor
  · intro h
    exact ⟨⟨⟨⟨h.stack, h.bindings⟩, h.dot, h.dots⟩, h.iterations⟩, h.streams⟩
  · rintro ⟨⟨⟨⟨hstack, hbindings⟩, hdot, hdots⟩, hiterations⟩, hstreams⟩
    exact ⟨hstack, hbindings, hdot, hdots, hiterations, hstreams⟩

/-! ### Calls -/

/-- The result of a call is what the callee has answered, out of its box. -/
theorem Returns.step_eq (h : m.Returns schema t i passed v) :
    ∃ m', m.step schema t i = .next m' ∧ m'.stack.head? = some v.unboxed := by
  cases h with
  | @function _ _ f args _ m' _ hf hargs hpassed hv =>
    refine ⟨m'.push v.unboxed, ?_, rfl⟩
    simp only [step, hf, hargs, Call.function_eq_ok_iff.mpr ⟨passed, v, hpassed, hv, rfl⟩]
    rfl
  | @method _ _ _ _ receiver _ rest args passed method m' hname hstack hmap happlies hargs hpassed hv =>
    refine ⟨m'.push v.unboxed, ?_, rfl⟩
    simp only [step, hname, hstack, fieldOf_method hmap happlies, hargs,
      Call.method_eq_ok_iff.mpr ⟨passed, v, hpassed, hv, rfl⟩]
    rfl

/-! ### Steps -/

section

variable (h : m.Marked outer inner)

include h

/-- A machine stays marked with another stack of marked values. -/
theorem Marked.withStack {stack : List Value} (hstack : ∀ v ∈ stack, v.Marked outer inner) :
    { m with stack := stack }.Marked outer inner := { h with stack := hstack }

/-- A machine stays marked with a marked value on top. -/
theorem Marked.push (hv : v.Marked outer inner) : (m.push v).Marked outer inner :=
  h.withStack (List.forall_mem_cons.mpr ⟨hv, h.stack⟩)

/-- A machine stays marked with a binding of a marked value. -/
theorem Marked.bind (name : Nat) (hv : v.Marked outer inner) : (m.bind name v).Marked outer inner :=
  { h with bindings := List.forall_mem_cons.mpr ⟨hv, h.bindings⟩ }

/-- A machine stays marked when values are dropped. -/
theorem Marked.drop (n : Nat) : { m with stack := m.stack.drop n }.Marked outer inner :=
  h.withStack fun v hv => h.stack v (List.mem_of_mem_drop hv)

end

/-- The answer for a name is marked if this is so of the fields of addressable records. -/
theorem marked_of_answers {u : Value} {name : String} (hsub : ∀ r, inner r → outer r)
    (hu : u.Marked outer inner) (hanswers : u.Answers schema name (.ok w))
    (hfields : ∀ x, u.isAddressable = true → u.HasField name x → x.isAddressable = true → outer x) :
    w.Marked outer inner := by
  cases hanswers with
  | nil => exact Value.marked_of_components rfl rfl
  | @field u v w hfield hbox =>
    rw [← Value.unboxes_iff.mp hbox]
    exact (hu.field hsub hfield fun hparent hx => hfields _ hparent hfield hx).unboxed hsub
  | entry hentry =>
    rw [← Value.hasEntry_iff.mp hentry]
    exact (hu.entryFor hsub name).unboxed hsub

section

variable {argc index : Nat} {name : String} {rest args : List Value}

/-- The values that a call of a method is passed are marked. -/
theorem Marked.only_passed (h : m.Marked outer inner) (hsub : ∀ r, inner r → outer r)
    {sig : Signature} {values : List Value} (hvalues : ∀ v ∈ values, v ∈ m.stack.take i.takes)
    (hcall : (∃ argc index, i = .func argc index) ∨ ∃ argc index, i = .field argc index)
    (hgains : ∀ r, m.Gains t i r → r.isAddressable = true → outer r)
    (hpassed : Call.prepare name sig values = .ok passed) : ∀ w ∈ passed, w.Only outer :=
  Value.only_coerceArgs (fun v hv => (h.stack v (List.mem_of_mem_take (hvalues v hv))).only hsub)
    (fun _ _ _ hmem => hgains _ (.argument hcall (hvalues _ hmem)) rfl)
    (Call.coerceArgs_of_prepare hpassed)

/-- An access to a field keeps the marks. -/
theorem Marked.field (h : m.Marked outer inner) (hname : t.strings[index]? = some name)
    (hstack : m.stack = v :: rest) (hsub : ∀ r, inner r → outer r)
    (hgains : ∀ r, m.Gains t (.field argc index) r → r.isAddressable = true → outer r)
    (hreturns : ∀ passed v, m.Returns schema t (.field argc index) passed v →
      (∀ w ∈ passed, w.Only outer) → v.Marked outer inner)
    (hstep : m.step schema t (.field argc index) = .next m') : m'.Marked outer inner := by
  obtain ⟨hv, hrest⟩ := List.forall_mem_cons.mp (hstack ▸ h.stack)
  have hpointers (ty : RecordType) (fields : List Value) (addressable : Bool)
      (hleads : v.LeadsTo (.ptr (.record ty fields addressable))) : outer (.record ty fields true) :=
    hgains _ (.target hstack hleads) rfl
  have hrules : Resolves schema name argc { m with stack := rest } v (.next m') := by
    rw [← fieldOf_eq_iff, ← hstep]
    simp only [step, hname, hstack]
  generalize hs : Step.next m' = s at hrules
  cases hrules with
  | entry hentry =>
    cases hs
    rw [← Value.hasEntry_iff.mp hentry]
    exact (h.withStack hrest).push ((hv.entryFor hsub name).unboxed hsub)
  | @method v receiver x method args below hmap happlies hargs hlength hresult =>
    cases hs
    have hargs : rest = args ++ below := hargs
    have hpop : { m with stack := rest }.popArgs? argc = some (args, { m with stack := below }) := by
      simp [Machine.popArgs?, hargs, ← hlength]
    have hbelow : ∀ w ∈ below, w.Marked outer inner := fun w hw => hrest w (by simp [hargs, hw])
    obtain ⟨passed, w, hpassed, hw, rfl⟩ := Call.method_eq_ok_iff.mp hresult
    have hreceiver := happlies.only (hv.only hsub) hpointers
    have hvalues : ∀ w ∈ args, w ∈ m.stack.take (Instr.field argc index).takes := by
      intro w hw
      simp [hstack, hargs, Instr.takes, ← hlength, hw]
    have honly := h.only_passed hsub hvalues (.inr ⟨argc, index, rfl⟩) hgains hpassed
    exact (h.withStack hbelow).push ((hreturns _ _ (.method hname hstack hmap happlies hpop hpassed hw)
      (List.forall_mem_cons.mpr ⟨hreceiver, honly⟩)).unboxed hsub)
  | methodFails => cases hs
  | underflow => cases hs
  | @field v u x _ _ hleads _ hanswers =>
    cases hs
    have hu := hv.leadsTo hsub hpointers hleads
    exact (h.withStack hrest).push (marked_of_answers hsub hu hanswers fun y hparent hfield hy =>
      hgains y (.field hname hstack hleads hparent (Value.field?_eq_some_iff.mpr hfield)) hy)
  | missing => cases hs

/-- A call of a function keeps the marks. -/
theorem Marked.func {f : Function} (h : m.Marked outer inner) (hsub : ∀ r, inner r → outer r)
    (hgains : ∀ r, m.Gains t (.func argc index) r → r.isAddressable = true → outer r)
    (hreturns : ∀ passed v, m.Returns schema t (.func argc index) passed v →
      (∀ w ∈ passed, w.Only outer) → v.Marked outer inner)
    (hf : t.funcs[index]? = some f) (hle : argc ≤ m.stack.length)
    (hresult : Call.function f (m.stack.take argc) = .ok w) :
    { m with stack := w :: m.stack.drop argc }.Marked outer inner := by
  obtain ⟨passed, v, hpassed, hv, rfl⟩ := Call.function_eq_ok_iff.mp hresult
  have honly := h.only_passed hsub (fun w hw => hw) (.inl ⟨argc, index, rfl⟩) hgains hpassed
  exact (h.drop argc).push ((hreturns passed v (.function hf (if_pos hle) hpassed hv) honly).unboxed hsub)

end

/-- The value of a variable is as marked as its machine. -/
theorem Marked.get? {name : Nat} (h : m.Marked outer inner)
    (hget : Bindings.get? name m.bindings = some v) : v.Marked outer inner := by
  obtain ⟨b, hb, rfl⟩ := Option.map_eq_some_iff.mp hget
  exact h.bindings b (List.mem_of_find?_eq_some hb)

/-- What a stream delivers is marked, and so is what is left of the streams. -/
theorem Marked.receive? {id : Nat} {streams : Streams} (h : m.Marked outer inner)
    (hreceive : m.streams.receive? id = some (v, streams)) :
    v.Marked outer inner ∧ ∀ queue ∈ streams.queues, ∀ w ∈ queue, w.Marked outer inner := by
  unfold Streams.receive? at hreceive
  split at hreceive
  · next v rest hqueue =>
    cases hreceive
    have hall := h.streams _ (List.mem_of_getElem? hqueue)
    obtain ⟨hv, hrest⟩ := List.forall_mem_cons.mp hall
    refine ⟨hv, fun queue hmem => ?_⟩
    rcases List.mem_or_eq_of_mem_set hmem with hmem | rfl
    · exact h.streams queue hmem
    · exact hrest
  · cases hreceive

/-- What an iteration delivers is marked, and so is what is left of it. -/
theorem Marked.next? {it it' : Iteration} {position : Value} {streams : Streams}
    (h : m.Marked outer inner) (hsub : ∀ r, inner r → outer r) (hit : it ∈ m.iterations)
    (hnext : it.next? m.streams = some ((position, v), it', streams)) :
    position.Marked outer inner ∧ v.Marked outer inner ∧ (∀ w ∈ it'.values, w.Marked outer inner) ∧
      ∀ queue ∈ streams.queues, ∀ w ∈ queue, w.Marked outer inner := by
  have hvalues := h.iterations it hit
  cases it with
  | entries rest =>
    cases rest with
    | nil => cases hnext
    | cons e rest =>
      cases hnext
      refine ⟨?_, ?_, fun w hw => ?_, h.streams⟩
      · exact hvalues _ (by simp [Iteration.values])
      · exact hvalues _ (by simp [Iteration.values])
      · exact hvalues w (List.mem_cons_of_mem _ (List.mem_cons_of_mem _ hw))
  | stream id count =>
    obtain ⟨⟨v', streams'⟩, hreceive, heq⟩ := Option.map_eq_some_iff.mp hnext
    cases heq
    obtain ⟨hv, hstreams⟩ := h.receive? hreceive
    exact ⟨Value.marked_of_components rfl rfl, hv.unboxed hsub, nofun, hstreams⟩

/-- A step keeps the marks of a machine if they cover the records that it gains and the answers of the
callees. -/
theorem Marked.step (h : m.Marked outer inner) (hsub : ∀ r, inner r → outer r)
    (hvalues : ∀ (index : Nat) (v : Value), t.values[index]? = some v → v.Marked outer inner)
    (hgains : ∀ r, m.Gains t i r → r.isAddressable = true → outer r)
    (hreturns : ∀ passed v, m.Returns schema t i passed v → (∀ w ∈ passed, w.Only outer) →
      v.Marked outer inner)
    (hstep : m.step schema t i = .next m') : m'.Marked outer inner := by
  have hadvances := step_eq_next.mp hstep
  cases hadvances with
  | nop | jmpf | jmpt => exact h
  | mark | wb | print => exact { h with }
  | popToMark => exact { h.drop (m.stack.length - _) with }
  | pop => exact h.drop _
  | field hname hstack => exact h.field hname hstack hsub hgains hreturns hstep
  | func hf hle hresult => exact h.func hsub hgains hreturns hf hle hresult
  | var hget => exact h.push (h.get? hget)
  | dot => exact h.push h.dot
  | string => exact h.push (Value.marked_of_components rfl rfl)
  | val hv => exact h.push (hvalues _ _ hv)
  | iter hstack hstart =>
    have hv := h.stack _ (hstack ▸ List.mem_cons_self)
    have hit := Iteration.marked_start hsub hv (fun items ty fields addressable hleads hmem =>
      hgains _ (.element hstack hleads hmem) rfl) hstart
    exact { h with iterations := List.forall_mem_cons.mpr ⟨hit, h.iterations⟩ }
  | turn hiterations hnext =>
    obtain ⟨-, hrest⟩ := List.forall_mem_cons.mp (hiterations ▸ h.iterations)
    obtain ⟨hposition, hv, hleft, hstreams⟩ := h.next? hsub (hiterations ▸ List.mem_cons_self) hnext
    exact { h with
      stack := List.forall_mem_cons.mpr ⟨hv, List.forall_mem_cons.mpr ⟨hposition, h.stack⟩⟩
      iterations := List.forall_mem_cons.mpr ⟨hleft, hrest⟩
      streams := hstreams }
  | declare hstack =>
    obtain ⟨hv, hbelow⟩ := List.forall_mem_cons.mp (hstack ▸ h.stack)
    exact (h.withStack hbelow).bind _ hv
  | assign hstack hassign =>
    obtain ⟨hv, hbelow⟩ := List.forall_mem_cons.mp (hstack ▸ h.stack)
    refine { h.withStack hbelow with bindings := fun b hb => ?_ }
    rcases Bindings.mem_of_mem_assign? hassign hb with rfl | hb
    · exact hv
    · exact h.bindings b hb
  | unsetVar hremove =>
    exact { h with bindings := fun b hb => h.bindings b (Bindings.mem_of_mem_remove? hremove hb) }
  | pushDot hstack =>
    exact { h with
      dots := List.forall_mem_cons.mpr ⟨h.dot, h.dots⟩
      dot := h.stack _ (hstack ▸ List.mem_cons_self) }
  | popDot hdots =>
    obtain ⟨hv, hdots⟩ := List.forall_mem_cons.mp (hdots ▸ h.dots)
    exact { h with dots := hdots, dot := hv }

/-- A jump gives up an iteration at most. -/
theorem Marked.jump {k : Int} (h : m.Marked outer inner) (hstep : m.step schema t i = .jump k m') :
    m'.Marked outer inner := by
  have hjumps := step_eq_jump.mp hstep
  cases hjumps with
  | exhausted hiterations =>
    exact { h with iterations := (List.forall_mem_cons.mp (hiterations ▸ h.iterations)).2 }
  | jmp | jmpf | jmpt => exact h

/-- The view that a template is called with has been on the stack. -/
theorem mem_stack_of_callee {p : Program} {ns index : Nat} {nsName target : String}
    (h : m.callee p ns index = .ok (nsName, target, v)) : v ∈ m.stack := by
  unfold callee at h
  split at h
  · next hstack =>
    cases h
    exact hstack ▸ List.mem_cons_self
  · cases h
  · cases h

/-- An activation with a marked view is marked. -/
theorem Marked.activate (h : m.Marked outer inner) (hv : v.Marked outer inner) (ns : String) :
    (m.activate ns v).Marked outer inner := by
  have hroot : { m.bind Tables.rootVar v with dot := v }.Marked outer inner :=
    { h.bind Tables.rootVar hv with dot := hv }
  unfold Machine.activate
  simp only
  split
  · exact hroot
  · split
    · next kind entries hget => exact hroot.bind _ ((hroot.get? hget).unpackMap ns)
    · exact hroot

/-- A machine is marked again when a callee that stayed marked is left. -/
theorem Marked.leave {after : Machine} (h : m.Marked outer inner) (hafter : after.Marked outer inner) :
    (m.leave after).Marked outer inner :=
  { hafter with
    bindings := fun b hb => hafter.bindings b (List.mem_of_mem_drop hb)
    dot := h.dot }

end Machine

namespace Program

variable {p : Program} {start P : Point} {past : List Point} {outer inner : Value → Prop}

/-- What a machine holds at the end of a trail is marked if the marks cover what has been gained on the
trail and the answers of the callees. -/
theorem Trail.marked (h : p.Trail start past P) (hsub : ∀ r, inner r → outer r)
    (hvalues : ∀ (index : Nat) (v : Value), p.tables.values[index]? = some v → v.Marked outer inner)
    (hstart : start.machine.Marked outer inner)
    (hgains : ∀ Q ∈ past, ∀ i, Q.code[Q.pc]? = some i → ∀ r, Q.machine.Gains p.tables i r →
      r.isAddressable = true → outer r)
    (hreturns : ∀ Q ∈ past, ∀ i, Q.code[Q.pc]? = some i → ∀ passed v,
      Q.machine.Returns p.schema p.tables i passed v → (∀ w ∈ passed, w.Only outer) →
        v.Marked outer inner) : P.machine.Marked outer inner := by
  induction h with
  | refl => exact hstart
  | @next start P past i m _ hi hstep ih =>
    simp only [List.forall_mem_append, List.forall_mem_singleton] at hgains hreturns
    exact (ih hstart hgains.1 hreturns.1).step hsub hvalues (hgains.2 i hi) (hreturns.2 i hi) hstep
  | jump _ hi hstep htarget ih =>
    simp only [List.forall_mem_append] at hgains hreturns
    exact (ih hstart hgains.1 hreturns.1).jump hstep
  | call _ hi hcallee hu ih =>
    simp only [List.forall_mem_append] at hgains hreturns
    have hP := ih hstart hgains.1 hreturns.1
    exact hP.activate (hP.stack _ (Machine.mem_stack_of_callee hcallee)) _
  | leave _ hi hcallee hu _ _ ih ihinner =>
    simp only [List.forall_mem_append, List.forall_mem_cons] at hgains hreturns
    have hP := ih hstart hgains.1 hreturns.1
    have hinner := ihinner (hP.activate (hP.stack _ (Machine.mem_stack_of_callee hcallee)) _)
      hgains.2.2 hreturns.2.2
    exact hP.leave hinner

/-! ### Origins -/

/-- Whether the functions and methods of a program mark no records as addressable: those in what they
answer they have been passed. -/
structure MarksNothing (p : Program) : Prop where
  functions : ∀ (index : Nat) (f : Function), p.tables.funcs[index]? = some f →
    ∀ passed v, Call.enter f passed = .ok v → v.IsFrom passed
  methods : ∀ (ty : RecordType) (name : String) (method : Method), p.schema.method? ty name = some method →
    ∀ receiver passed v, method.call receiver (Call.pack method.sig passed) = .ok v →
      v.IsFrom (receiver :: passed)

/-- Whether a record has been gained at one of the points of a trail. -/
def Gained (p : Program) (past : List Point) (r : Value) : Prop :=
  ∃ Q ∈ past, ∃ i, Q.code[Q.pc]? = some i ∧ Q.machine.Gains p.tables i r

/-- Whether a callee has answered a value with a record inside of it at one of the points of a trail. -/
def HandedBack (p : Program) (past : List Point) (r : Value) : Prop :=
  ∃ Q ∈ past, ∃ i passed v, Q.code[Q.pc]? = some i ∧ Q.machine.Returns p.schema p.tables i passed v ∧
    (∃ w ∈ passed, r.Part w) ∧ ∃ w ∈ v.components, r.Part w

/-- If callees mark nothing, their results come from what they have been passed. -/
theorem MarksNothing.isFrom (h : p.MarksNothing) {i : Instr} {m : Machine} {passed : List Value} {v : Value}
    (hreturns : m.Returns p.schema p.tables i passed v) : v.IsFrom passed := by
  cases hreturns with
  | function hf _ _ hv => exact h.functions _ _ hf _ _ hv
  | method _ _ _ happlies _ _ hv =>
    obtain ⟨w, -, hmethod⟩ := happlies
    cases hmethod with
    | record hm | target hm | pointer hm | address hm =>
      exact h.methods _ _ _ (Value.declares_iff.mp hm) _ _ _ hv

/-- At the end of a trail from plain values, all addressable records have been gained on it, and those
inside of other values have been handed back. -/
theorem Trail.origins (h : p.Trail start past P) (hhost : p.MarksNothing)
    (hvalues : ∀ (index : Nat) (v : Value), p.tables.values[index]? = some v → v.IsPlain)
    (hstart : ∀ v ∈ start.machine.values, v.IsPlain) :
    P.machine.Marked (p.Gained past) fun r => p.Gained past r ∧ p.HandedBack past r := by
  have hplain {v : Value} (hv : v.IsPlain) :
      v.Marked (p.Gained past) fun r => p.Gained past r ∧ p.HandedBack past r :=
    (hv.mono nofun).marked fun _ hr => hr.1
  refine h.marked (fun _ hr => hr.1) (fun index v hv => hplain (hvalues index v hv))
    (Machine.marked_iff.mpr fun v hv => hplain (hstart v hv)) (fun Q hQ i hi r hr _ => ⟨Q, hQ, i, hi, hr⟩)
    fun Q hQ i hi passed v hreturns honly => ?_
  have hfrom := hhost.isFrom hreturns
  have hgained : v.Only (p.Gained past) := fun r hpart hr =>
    have ⟨w, hw, hin⟩ := hfrom r hpart hr
    honly w hw r hin hr
  refine ⟨hgained v .self, fun w hw r hpart hr => ?_⟩
  have hinside : r.Part v := .inside hw hpart
  exact ⟨hgained r hinside hr, Q, hQ, i, passed, v, hi, hreturns, hfrom r hinside hr, w, hw, hpart⟩

/-- Where a run with plain data and variables starts, a machine that holds plain values does so. -/
theorem isPlain_startPoint {name : String} {u : CompiledTemplate} {data vars : Value} {m : Machine}
    (hdata : data.IsPlain) (hvars : vars.IsPlain) (hm : ∀ v ∈ m.values, v.IsPlain) :
    ∀ v ∈ (startPoint name u data vars m).machine.values, v.IsPlain := by
  have hmarked : m.Marked (fun _ => False) fun _ => False :=
    Machine.marked_iff.mpr fun v hv => Value.only_iff_marked.mp (hm v hv)
  have hstart := (hmarked.bind Tables.varsVar (Value.only_iff_marked.mp hvars)).activate
    (Value.only_iff_marked.mp hdata) ""
  exact fun v hv => Value.only_iff_marked.mpr (Machine.marked_iff.mp hstart v hv)

/-- Wherever a run gets, if there are no addressable records to begin with and callees mark none:

* every addressable record that the machine holds has been gained on the way, by following a pointer,
  from a sequence that is iterated over, or as a field of an addressable record;
* the result of a call is an addressable record only if the callee has been passed it, and if it has been
  passed none, a method on pointers applies to the result only if that is a pointer;
* a value that is looked up in a map is an addressable record only if a callee has been passed it before
  and has answered a value with it inside. -/
theorem addressable_records_have_origins (hhost : p.MarksNothing)
    (hvalues : ∀ (index : Nat) (v : Value), p.tables.values[index]? = some v → v.IsPlain) {name : String}
    {u : CompiledTemplate} {data vars : Value} {m : Machine} (hdata : data.IsPlain) (hvars : vars.IsPlain)
    (hm : ∀ v ∈ m.values, v.IsPlain) (hreach : p.Reaches (startPoint name u data vars m) P) :
    (∃ past, p.Trail (startPoint name u data vars m) past P) ∧
    ∀ past, p.Trail (startPoint name u data vars m) past P →
      (∀ v ∈ P.machine.values, ∀ r, r.Part v → r.isAddressable = true → p.Gained past r) ∧
      (∀ i passed v, P.machine.Returns p.schema p.tables i passed v →
        (∃ m', P.machine.step p.schema p.tables i = .next m' ∧ m'.stack.head? = some v.unboxed) ∧
        (v.unboxed.isAddressable = true → ∃ w ∈ passed, v.unboxed.Part w) ∧
        ((∀ w ∈ passed, w.IsPlain) → ∀ name method receiver,
          v.unboxed.Applies p.schema name method receiver → method.receiver = .pointer →
            v.unboxed.Wraps receiver)) ∧
      ∀ v rest entries key, P.machine.stack = v :: rest → v.LeadsTo (.map .text entries) →
        (Value.entryFor key entries).unboxed.isAddressable = true →
          p.HandedBack past (Value.entryFor key entries).unboxed := by
  refine ⟨hreach.exists_trail, fun past hpast => ?_⟩
  have horigins := hpast.origins hhost hvalues (isPlain_startPoint hdata hvars hm)
  refine ⟨fun v hv => ?_, fun i passed v hreturns => ?_, fun v rest entries key hstack hleads haddr => ?_⟩
  · exact (Machine.marked_iff.mp horigins v hv).only fun _ hr => hr.1
  · have hfrom := hhost.isFrom hreturns
    refine ⟨hreturns.step_eq, hfrom.unboxed _ .self, fun hplain name method receiver happlies hkind => ?_⟩
    have hunmarked : v.IsPlain := fun r hpart hr =>
      have ⟨w, hw, hin⟩ := hfrom r hpart hr
      hplain w hw r hin hr
    obtain ⟨w, hwraps, hmethod⟩ := happlies
    rcases hmethod.pointer_or_addressable hkind with rfl | ⟨-, haddr⟩
    · exact hwraps
    · exact (hunmarked.unboxed.wraps hwraps w .self haddr).elim
  · have hv : v.Marked (fun _ => True) fun r => p.Gained past r ∧ p.HandedBack past r :=
      (horigins.stack v (hstack ▸ List.mem_cons_self)).mono (fun _ _ => trivial) fun _ => id
    have hmap := hv.leadsTo (fun _ _ => trivial) (fun _ _ _ _ => trivial) hleads
    exact (Value.only_entryFor hmap.below key).unboxed _ .self haddr |>.2

end Program

/-! ### Samples -/

namespace Sample

/-- The type of pages, which have a title. -/
def page : RecordType := ⟨1, "Page", ["Title"]⟩

/-- A method that answers the page that it is called on. -/
def self : Method := ⟨"Self", .value, ⟨[], none, .any⟩, fun receiver _ => .ok receiver⟩

/-- A method on pointers. -/
def touch : Method := ⟨"Touch", .pointer, ⟨[], none, .text .plain⟩, fun _ _ => .ok (.str "touched")⟩

/-- Pages have both methods. -/
def pages : Schema := ⟨fun ty => if ty = page then ⟨[self, touch], none⟩ else .plain⟩

/-- A page on its own, and one that has been reached by iterating over a sequence. -/
def home (addressable : Bool) : Value := .record page [.str "Home"] addressable

/-- `{{range .}}{{.Self.Touch}}{{end}}` -/
def touching : TemplateSet :=
  .ofRoot ⟨"main", ⟨0, [.branch .range 0 (.mk 0 false [] [.mk 0 [.dot 0]])
    ⟨0, [.action 0 (.mk 0 false [] [.mk 0 [.field 0 ["Self", "Touch"]]])]⟩ none]⟩, none⟩

/-- The code of the sample. -/
def touchingCode : List Instr :=
  [.dot, .iter, .next 10, .pushDot, .pop 2, .mark, .dot, .field 0 2, .field 0 3, .print, .pop 0, .popDot,
    .jmp (-11), .pop 1]

/-- The sample is compiled, to the code that it is said to have. -/
theorem exists_touching : ∃ p u, Compile.compile pages .empty .standard touching = .ok p ∧
    p.templates["main"]? = some u ∧ u.code.toList = touchingCode ∧ p.schema = pages ∧
    p.tables.strings[2]? = some "Self" ∧ p.tables.strings[3]? = some "Touch" ∧
    p.tables.funcs.size = 0 ∧ p.tables.values.size = 0 := by
  obtain ⟨p, hp⟩ : ∃ p, Compile.compile pages .empty .standard touching = .ok p :=
    Compile.exists_of_isOk (by decide +kernel)
  have hall : (Compile.compile pages .empty .standard touching).toOption.all fun p =>
      (p.templates["main"]?.any fun u => u.code.toList == touchingCode) &&
        p.tables.strings[2]? == some "Self" && p.tables.strings[3]? == some "Touch" &&
          p.tables.funcs.size == 0 && p.tables.values.size == 0 := by
    decide +kernel
  rw [hp] at hall
  simp only [Except.toOption, Option.all_some, Option.any_eq_true, Bool.and_eq_true, beq_iff_eq] at hall
  obtain ⟨⟨⟨⟨⟨u, hu, hcode⟩, hself⟩, htouch⟩, hfuncs⟩, hvalues⟩ := hall
  exact ⟨p, u, hp, hu, hcode, Compile.schema_of_compile hp, hself, htouch, hfuncs, hvalues⟩

/-- The methods of the sample mark nothing. -/
theorem marksNothing_touching {p : Program} (hschema : p.schema = pages) (hfuncs : p.tables.funcs.size = 0) :
    p.MarksNothing where
  functions index f hf := by
    rw [Array.getElem?_eq_none (by omega)] at hf
    cases hf
  methods ty name method hm receiver passed v hv := by
    have hmethod : method ∈ (pages.info ty).methods := by
      rw [hschema] at hm
      exact List.mem_reverse.mp (List.mem_of_find?_eq_some hm)
    by_cases hty : ty = page
    · simp only [pages, if_pos hty, List.mem_cons, List.not_mem_nil, or_false] at hmethod
      rcases hmethod with rfl | rfl
      · cases hv
        exact fun r hpart _ => ⟨receiver, List.mem_cons_self, hpart⟩
      · cases hv
        exact Value.only_of_components rfl rfl
    · simp only [pages, if_neg hty, TypeInfo.plain, List.not_mem_nil] at hmethod

/-- A home page that is not addressable is plain. -/
theorem isPlain_home : (home false).IsPlain := by
  refine Value.only_iff.mpr ⟨nofun, fun w hw => ?_⟩
  obtain rfl := List.mem_singleton.mp hw
  exact Value.only_of_components rfl rfl

/-- So is a sequence of it. -/
theorem isPlain_pages : (Value.seq [home false]).IsPlain :=
  Value.only_iff.mpr ⟨nofun, fun _ hw => List.mem_singleton.mp hw ▸ isPlain_home⟩

/-- A fresh machine holds plain values only. -/
theorem isPlain_fresh (sink : Sink) : ∀ v ∈ (Machine.fresh sink .none).values, v.IsPlain := by
  intro v hv
  obtain rfl : v = .nil := List.mem_singleton.mp hv
  exact Value.only_of_components rfl rfl

/-- The run of the sample gets to the page in the sequence. -/
theorem exists_atPage {p : Program} {u : CompiledTemplate} (hcode : u.code.toList = touchingCode) :
    ∃ m, p.Reaches (Program.startPoint "main" u (.seq [home false]) .nil (.fresh .unlimited .none))
      ⟨["main"], touchingCode, 7, m⟩ ∧ m.stack = [home true, .seq [home false]] := by
  let start := ((Machine.fresh .unlimited .none).bind Tables.varsVar .nil).activate "" (.seq [home false])
  have hstart : p.Reaches (Program.startPoint "main" u (.seq [home false]) .nil (.fresh .unlimited .none))
      ⟨["main"], touchingCode, 0, start⟩ := by
    rw [Program.startPoint, hcode]
    exact .refl
  have hdot := hstart.next (i := .dot) (m := start.push (.seq [home false])) rfl rfl
  have hiter := hdot.next (i := .iter) rfl rfl
  have helement := hiter.next (i := .next 10) rfl rfl
  have hpushDot := helement.next (i := .pushDot) rfl rfl
  have hpop := hpushDot.next (i := .pop 2) rfl rfl
  have hmark := hpop.next (i := .mark) rfl rfl
  exact ⟨_, hmark.next (i := .dot) rfl rfl, rfl⟩

end Sample

namespace Program

open Sample

/-- In the sample the page that the loop is at has been gained from the sequence. -/
theorem addressable_records_have_origins_sample :
    ∃ p u P past, Compile.compile pages .empty .standard touching = .ok p ∧
      p.templates["main"]? = some u ∧ p.MarksNothing ∧
      p.Reaches (startPoint "main" u (.seq [home false]) .nil (.fresh .unlimited .none)) P ∧
      p.Trail (startPoint "main" u (.seq [home false]) .nil (.fresh .unlimited .none)) past P ∧
      P.machine.stack.head? = some (home true) ∧ p.Gained past (home true) := by
  obtain ⟨p, u, hp, hu, hcode, hschema, hself, htouch, hfuncs, hvalues⟩ := exists_touching
  obtain ⟨m, hreach, hstack⟩ := exists_atPage hcode
  have hhost := marksNothing_touching hschema hfuncs
  have hplain : ∀ (index : Nat) (v : Value), p.tables.values[index]? = some v → v.IsPlain := by
    intro index v hv
    rw [Array.getElem?_eq_none (by omega)] at hv
    cases hv
  obtain ⟨⟨past, hpast⟩, horigins⟩ := addressable_records_have_origins hhost hplain isPlain_pages
    (Value.only_of_components rfl rfl)
    (isPlain_fresh .unlimited) hreach
  obtain ⟨hgained, -, -⟩ := horigins past hpast
  have hheld : home true ∈ m.values := by simp [Machine.values, hstack]
  exact ⟨p, u, _, past, hp, hu, hhost, hreach, hpast, by rw [hstack]; rfl,
    hgained _ hheld _ .self rfl⟩

/-- In the sample a method answers the page that it is called on, and then a method on pointers is called
on what it has answered. -/
theorem call_result_is_addressable :
    ∃ p u P m m', Compile.compile pages .empty .standard touching = .ok p ∧
      p.templates["main"]? = some u ∧ p.MarksNothing ∧ (Value.seq [home false]).IsPlain ∧
      p.Reaches (startPoint "main" u (.seq [home false]) .nil (.fresh .unlimited .none)) P ∧
      P.machine.Returns p.schema p.tables (.field 0 2) [home true] (home true) ∧
      P.code[P.pc]? = some (.field 0 2) ∧
      P.machine.step p.schema p.tables (.field 0 2) = .next m ∧ m.stack.head? = some (home true) ∧
      (home true).isAddressable ∧ P.code[P.pc + 1]? = some (.field 0 3) ∧
      m.Returns p.schema p.tables (.field 0 3) [.ptr (home true)] (.str "touched") ∧
      m.step p.schema p.tables (.field 0 3) = .next m' ∧ m'.stack.head? = some (.str "touched") := by
  obtain ⟨p, u, hp, hu, hcode, hschema, hself, htouch, hfuncs, -⟩ := exists_touching
  obtain ⟨m, hreach, hstack⟩ := exists_atPage hcode
  have hreturns : m.Returns p.schema p.tables (.field 0 2) [home true] (home true) :=
    .method hself hstack (fun _ => nofun) ⟨_, .refl _, .record (Value.declares_iff.mpr (by rw [hschema]; rfl)) rfl⟩ rfl rfl rfl
  obtain ⟨m₁, hstep, hhead⟩ := hreturns.step_eq
  obtain ⟨rest, hstack₁⟩ := List.head?_eq_some_iff.mp hhead
  have htouches : m₁.Returns p.schema p.tables (.field 0 3) [.ptr (home true)] (.str "touched") :=
    .method htouch hstack₁ (fun _ => nofun) ⟨_, .refl _, .address (Value.declares_iff.mpr (by rw [hschema]; rfl)) rfl⟩ rfl rfl rfl
  obtain ⟨m₂, hstep₂, hhead₂⟩ := htouches.step_eq
  exact ⟨p, u, _, m₁, m₂, hp, hu, marksNothing_touching hschema hfuncs, isPlain_pages, hreach, hreturns, rfl,
    hstep, hhead, rfl, rfl, htouches, hstep₂, hhead₂⟩

end Program
end Stencil
