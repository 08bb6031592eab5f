import Stencil.Proofs.Failure
import Stencil.Proofs.Frame
import Stencil.Proofs.Keys

/-!
# Field access

What a name after a value stands for, told by rules. Methods are looked up through boxes and pointers
to boxes only, and for fields and entries all pointers and boxes are followed, so behind a pointer to a
pointer a record has fields and no methods. What a record or a map has under a name is told by where the
name stands in its declaration or among its entries, apart from how it is looked up.
-/

namespace Stencil

/-- Whether a type has a method of a name: the last one of those declared with the name. -/
def Schema.Declares (schema : Schema) (ty : RecordType) (name : String) (m : Method) : Prop :=
  ∃ front rest, (schema.info ty).methods = front ++ m :: rest ∧ m.name = name ∧
    ∀ m' ∈ rest, m'.name ≠ name

namespace Value

variable {schema : Schema} {name : String} {v w u receiver : Value} {method : Method} {ty : RecordType}
  {fields : List Value} {entries : List (Key × Value)} {addressable : Bool}

/-- Whether a value leads to another one through pointers and boxes, any number of them. -/
inductive LeadsTo : Value → Value → Prop where
  | refl (v : Value) : LeadsTo v v
  | layer {v w u : Value} (hlayer : v.deref? = some w) (hrest : LeadsTo w u) : LeadsTo v u

/-- Whether a value is another one in boxes and pointers to boxes, any number of them. -/
inductive Wraps : Value → Value → Prop where
  | refl (v : Value) : Wraps v v
  | box {v w : Value} (hrest : Wraps v w) : Wraps (.box v) w
  | pointer {v w : Value} (hrest : Wraps v w) : Wraps (.ptr (.box v)) w

/-- Whether a record or a pointer to one has a method of a name, and the receiver that the method gets.
The address of a record is taken only if it has one. -/
inductive HasMethod (schema : Schema) (name : String) : Value → Method → Value → Prop where
  | record {ty : RecordType} {fields : List Value} {addressable : Bool} {m : Method}
      (hm : schema.Declares ty name m) (hkind : m.receiver = .value) :
      HasMethod schema name (.record ty fields addressable) m (.record ty fields addressable)
  | target {ty : RecordType} {fields : List Value} {addressable : Bool} {m : Method}
      (hm : schema.Declares ty name m) (hkind : m.receiver = .value) :
      HasMethod schema name (.ptr (.record ty fields addressable)) m (.record ty fields true)
  | pointer {ty : RecordType} {fields : List Value} {addressable : Bool} {m : Method}
      (hm : schema.Declares ty name m) (hkind : m.receiver = .pointer) :
      HasMethod schema name (.ptr (.record ty fields addressable)) m
        (.ptr (.record ty fields addressable))
  | address {ty : RecordType} {fields : List Value} {m : Method}
      (hm : schema.Declares ty name m) (hkind : m.receiver = .pointer) :
      HasMethod schema name (.record ty fields true) m (.ptr (.record ty fields true))

/-- Whether a method of a name applies to a value, and the receiver that it gets. -/
def Applies (schema : Schema) (name : String) (v : Value) (m : Method) (receiver : Value) : Prop :=
  ∃ w, v.Wraps w ∧ w.HasMethod schema name m receiver

/-- Whether a value is the receiver that a method of a name is declared for. -/
inductive Fits (schema : Schema) (name : String) (m : Method) : Value → Prop where
  | value {ty : RecordType} {fields : List Value} {addressable : Bool}
      (hm : schema.Declares ty name m) (hkind : m.receiver = .value) :
      Fits schema name m (.record ty fields addressable)
  | pointer {ty : RecordType} {fields : List Value} {addressable : Bool}
      (hm : schema.Declares ty name m) (hkind : m.receiver = .pointer) :
      Fits schema name m (.ptr (.record ty fields addressable))

/-- Whether a value is of a kind that has neither fields nor entries of names. -/
def isNameless : Value → Bool
  | bool _ | int _ | float _ | text .. | seq _ | func .. | stream _ => true
  | map kind _ => kind != .text
  | nil | nilPtr | nilBox | ptr _ | box _ | record .. => false

/-- Whether a value is another one without the box around it, if there is one. -/
inductive Unboxes : Value → Value → Prop where
  | box (v : Value) : Unboxes (.box v) v
  | bare {v : Value} (hbare : ∀ w, v ≠ .box w) : Unboxes v v

/-- Whether a record has a value for a name: the one at the last place where its type has the name. In an
addressable record it is addressable too. -/
inductive HasField (name : String) : Value → Value → Prop where
  | plain {ty : RecordType} {fields : List Value} {front rest : List String} {v : Value}
      (hnames : ty.fields = front ++ name :: rest) (hlast : name ∉ rest)
      (hvalue : fields[front.length]? = some v) : HasField name (.record ty fields false) v
  | addressable {ty : RecordType} {fields : List Value} {front rest : List String} {v : Value}
      (hnames : ty.fields = front ++ name :: rest) (hlast : name ∉ rest)
      (hvalue : fields[front.length]? = some v) : HasField name (.record ty fields true) v.addressed

/-- What a map with text keys has under a name: the value of its first entry with that key, without the
box around it, or nil if it has none. -/
inductive HasEntry (name : String) : List (Key × Value) → Value → Prop where
  | entry {front rest : List (Key × Value)} {v w : Value} (hfirst : ∀ e ∈ front, e.1 ≠ .text name)
      (hbox : v.Unboxes w) : HasEntry name (front ++ (.text name, v) :: rest) w
  | absent {entries : List (Key × Value)} (hnone : ∀ e ∈ entries, e.1 ≠ .text name) :
      HasEntry name entries .nil

/-- What a value without pointers and boxes around it answers for a name. -/
inductive Answers (schema : Schema) (name : String) : Value → Except RuntimeError Value → Prop where
  | nil {u : Value} (hnil : u = .nil ∨ u = .nilPtr ∨ u = .nilBox) : Answers schema name u (.ok .nil)
  | field {u v w : Value} (hfield : u.HasField name v) (hbox : v.Unboxes w) :
      Answers schema name u (.ok w)
  | entry {entries : List (Key × Value)} {w : Value} (hentry : HasEntry name entries w) :
      Answers schema name (.map .text entries) (.ok w)
  | pointerOnly {ty : RecordType} {fields : List Value} {addressable : Bool} {m : Method}
      (hfield : ∀ v, ¬(record ty fields addressable).HasField name v)
      (hm : schema.Declares ty name m) (hkind : m.receiver = .pointer) :
      Answers schema name (.record ty fields addressable)
        (.error (.requiresPointerReceiver name ty.name))
  | unknown {ty : RecordType} {fields : List Value} {addressable : Bool}
      (hfield : ∀ v, ¬(record ty fields addressable).HasField name v)
      (hm : ∀ m, schema.Declares ty name m → m.receiver ≠ .pointer) :
      Answers schema name (.record ty fields addressable) (.error (.fieldNotFound name ty.name))
  | other {u : Value} (hnameless : u.isNameless = true) :
      Answers schema name u (.error (.notEvaluable name u.typeName))

/-! ### Look-ups -/

/-- Looking a method up on its type finds the last one of the name. -/
theorem declares_iff {m : Method} : schema.Declares ty name m ↔ schema.method? ty name = some m := by
  rw [Schema.method?, TypeInfo.method?, List.find?_eq_some_iff_append, beq_iff_eq]
  constructor
  · rintro ⟨front, rest, hmethods, hname, hlast⟩
    exact ⟨hname, rest.reverse, front.reverse, by simp [hmethods], by simpa using hlast⟩
  · rintro ⟨hname, rest, front, hmethods, hlast⟩
    refine ⟨front.reverse, rest.reverse, ?_, hname, by simpa using hlast⟩
    rw [← List.reverse_reverse (schema.info ty).methods, hmethods]
    simp

/-- Opening a box is taking the value out of it. -/
theorem unboxes_iff : v.Unboxes w ↔ v.unboxed = w := by
  constructor
  · rintro (_ | hbare)
    · rfl
    · unfold unboxed
      split
      · exact absurd rfl (hbare _)
      · rfl
  · rintro rfl
    unfold unboxed
    split
    · exact .box _
    · next hbare => exact .bare fun w heq => hbare w heq

/-- The index of a name in a type is its last place there. -/
theorem fieldIndex?_append {front rest : List String} (hnames : ty.fields = front ++ name :: rest)
    (hlast : name ∉ rest) : ty.fieldIndex? name = some front.length := by
  have hnone : (rest.zipIdx (front.length + 1)).reverse.find? (·.1 == name) = none := by
    rw [List.find?_eq_none]
    intro e he
    have hmem := List.fst_mem_of_mem_zipIdx (List.mem_reverse.mp he)
    rw [beq_iff_eq]
    exact fun heq => hlast (heq ▸ hmem)
  rw [RecordType.fieldIndex?, hnames, List.zipIdx_append, List.zipIdx_cons, List.reverse_append,
    List.reverse_cons, List.append_assoc, List.find?_append, Nat.zero_add, hnone]
  simp

/-- A name that a type has has a last place there. -/
theorem exists_last_place {names : List String} (hmem : name ∈ names) :
    ∃ front rest, names = front ++ name :: rest ∧ name ∉ rest := by
  obtain ⟨rest, front, hsplit, hnot⟩ := List.eq_append_cons_of_mem (List.mem_reverse.mpr hmem)
  refine ⟨front.reverse, rest.reverse, ?_, by simpa using hnot⟩
  rw [← List.reverse_reverse names, hsplit]
  simp

/-- A type has no index for a name that it does not have. -/
theorem mem_of_fieldIndex? {k : Nat} (h : ty.fieldIndex? name = some k) : name ∈ ty.fields := by
  obtain ⟨e, hfind, -⟩ := Option.map_eq_some_iff.mp h
  have hname := List.find?_some hfind
  have hmem := List.fst_mem_of_mem_zipIdx (List.mem_reverse.mp (List.mem_of_find?_eq_some hfind))
  exact beq_iff_eq.mp hname ▸ hmem

/-- Looking a field up finds the value at the last place of its name. -/
theorem field?_eq_some_iff : u.field? name = some w ↔ u.HasField name w := by
  constructor
  · intro h
    cases u with
    | record ty fields addressable =>
      obtain ⟨k, hindex, v, hvalue, heq⟩ : ∃ k, ty.fieldIndex? name = some k ∧ ∃ v,
          fields[k]? = some v ∧ (if addressable then v.addressed else v) = w := by
        simpa [field?, Option.bind_eq_some_iff] using h
      obtain ⟨front, rest, hnames, hlast⟩ := exists_last_place (mem_of_fieldIndex? hindex)
      rw [fieldIndex?_append hnames hlast, Option.some.injEq] at hindex
      subst hindex
      cases addressable with
      | false => exact heq ▸ .plain hnames hlast hvalue
      | true => exact heq ▸ .addressable hnames hlast hvalue
    | _ => cases h
  · rintro (⟨hnames, hlast, hvalue⟩ | ⟨hnames, hlast, hvalue⟩)
    all_goals
      rw [field?, fieldIndex?_append hnames hlast]
      simp [hvalue]

/-- Looking a field up finds nothing if there is none. -/
theorem field?_eq_none_iff : u.field? name = none ↔ ∀ v, ¬u.HasField name v := by
  rw [Option.eq_none_iff_forall_ne_some]
  exact forall_congr' fun v => not_congr field?_eq_some_iff

/-- Looking an entry up skips those of other keys. -/
theorem entryFor_append {front : List (Key × Value)} (rest : List (Key × Value))
    (hfirst : ∀ e ∈ front, e.1 ≠ .text name) : entryFor name (front ++ rest) = entryFor name rest := by
  induction front with
  | nil => rfl
  | cons e front ih =>
    obtain ⟨hother, hfront⟩ := List.forall_mem_cons.mp hfirst
    have hne : compare (Key.text name) e.1 ≠ .eq := fun heq => hother (Std.compare_eq_iff_eq.mp heq).symm
    have hskip : entryFor name (e :: (front ++ rest)) = entryFor name (front ++ rest) := by
      simp only [entryFor, Entries.get?, if_neg hne]
    exact hskip.trans (ih hfront)

/-- An entry of another key in front changes nothing. -/
theorem HasEntry.cons {e : Key × Value} (h : HasEntry name entries w) (hother : e.1 ≠ .text name) :
    HasEntry name (e :: entries) w := by
  cases h with
  | entry hfirst hbox => exact .entry (List.forall_mem_cons.mpr ⟨hother, hfirst⟩) hbox
  | absent hnone => exact .absent (List.forall_mem_cons.mpr ⟨hother, hnone⟩)

/-- A map has something under each name. -/
theorem hasEntry_entryFor (name : String) (entries : List (Key × Value)) :
    HasEntry name entries (entryFor name entries).unboxed := by
  induction entries with
  | nil => exact .absent fun _ he => nomatch he
  | cons e rest ih =>
    obtain ⟨key, v⟩ := e
    by_cases hkey : key = .text name
    · have hself : entryFor name ((key, v) :: rest) = v := by
        simp [entryFor, Entries.get?, hkey]
      have hfirst : ∀ e ∈ ([] : List (Key × Value)), e.1 ≠ .text name := by simp
      rw [hself, hkey]
      exact .entry hfirst (unboxes_iff.mpr rfl)
    · have hone : ∀ e ∈ [(key, v)], e.1 ≠ .text name := fun e he => List.mem_singleton.mp he ▸ hkey
      have hskip : entryFor name ((key, v) :: rest) = entryFor name rest := entryFor_append rest hone
      rw [hskip]
      exact ih.cons hkey

/-- Looking an entry up finds the value of the first one with the key, or nil. -/
theorem hasEntry_iff : HasEntry name entries w ↔ (entryFor name entries).unboxed = w := by
  constructor
  · rintro (⟨hfirst, hbox⟩ | hnone)
    · rw [entryFor_append _ hfirst, ← unboxes_iff.mp hbox]
      simp [entryFor, Entries.get?]
    · have habsent := entryFor_append [] hnone
      rw [List.append_nil] at habsent
      rw [habsent]
      rfl
  · rintro rfl
    exact hasEntry_entryFor name entries

/-! ### Methods -/

/-- A value that has a method is behind a receiver that fits it. -/
theorem HasMethod.fits (h : w.HasMethod schema name method receiver) :
    receiver.Fits schema name method := by
  cases h with
  | record hm hkind | target hm hkind => exact .value hm hkind
  | pointer hm hkind | address hm hkind => exact .pointer hm hkind

/-- A pointer that a method gets is the value itself, or is taken to an addressable record. -/
theorem HasMethod.pointer_or_addressable (h : w.HasMethod schema name method receiver)
    (hkind : method.receiver = .pointer) : w = receiver ∨ receiver = .ptr w ∧ w.isAddressable = true := by
  cases h with
  | record _ hvalue | target _ hvalue => rw [hkind] at hvalue; cases hvalue
  | pointer => exact .inl rfl
  | address => exact .inr ⟨rfl, rfl⟩

/-- A value that is neither a box nor a pointer to one has the methods of a record. -/
theorem method?_eq_some_of_hasMethod (h : w.HasMethod schema name method receiver) :
    w.method? schema name = some (method, receiver) := by
  cases h with
  | record hm hkind | target hm hkind | pointer hm hkind | address hm hkind =>
    simp [method?, declares_iff.mp hm, hkind]

/-- A value that wraps another one has its methods. -/
theorem method?_of_wraps (h : v.Wraps w) : v.method? schema name = w.method? schema name := by
  induction h with
  | refl => rfl
  | box _ ih | pointer _ ih => simpa only [method?] using ih

/-- Looking a method up finds the one that applies. -/
theorem method?_eq_some_iff :
    v.method? schema name = some (method, receiver) ↔ v.Applies schema name method receiver := by
  constructor
  · fun_induction method? schema name v with
    | case1 | case4 | case8 => nofun
    | case2 ty fields addressable m hm hkind =>
      rintro ⟨⟩
      exact ⟨_, .refl _, .record (declares_iff.mpr hm) hkind⟩
    | case3 ty fields m hm hkind =>
      rintro ⟨⟩
      exact ⟨_, .refl _, .address (declares_iff.mpr hm) hkind⟩
    | case5 ty fields addressable =>
      intro h
      obtain ⟨m, hm, heq⟩ := Option.map_eq_some_iff.mp h
      cases hkind : m.receiver with
      | value =>
        rw [hkind] at heq
        cases heq
        exact ⟨_, .refl _, .target (declares_iff.mpr hm) hkind⟩
      | pointer =>
        rw [hkind] at heq
        cases heq
        exact ⟨_, .refl _, .pointer (declares_iff.mpr hm) hkind⟩
    | case6 v ih =>
      intro h
      obtain ⟨w, hwraps, hmethod⟩ := ih h
      exact ⟨w, .pointer hwraps, hmethod⟩
    | case7 v ih =>
      intro h
      obtain ⟨w, hwraps, hmethod⟩ := ih h
      exact ⟨w, .box hwraps, hmethod⟩
  · rintro ⟨w, hwraps, hmethod⟩
    rw [method?_of_wraps hwraps, method?_eq_some_of_hasMethod hmethod]

/-! ### Fields -/

/-- A layer more or less leads to the same value. -/
theorem reach_of_deref? (h : v.deref? = some w) : v.reach = w.reach := by
  unfold deref? at h
  split at h
  · next target =>
    cases h
    cases target <;> rfl
  · cases h
    rw [reach]
  · cases h

/-- What a value leads to is reached from the same values. -/
theorem reach_of_leadsTo (h : v.LeadsTo u) : v.reach = u.reach := by
  induction h with
  | refl => rfl
  | layer hlayer _ ih => rw [reach_of_deref? hlayer, ih]

/-- All pointers and boxes of a value can be followed, up to one that is nil. -/
theorem exists_leadsTo (v : Value) : ∃ u, v.LeadsTo u ∧ u.deref? = none := by
  fun_induction reach v with
  | case1 | case2 => exact ⟨_, .refl _, rfl⟩
  | case3 ty fields addressable => exact ⟨.record ty fields true, .layer rfl (.refl _), rfl⟩
  | case4 target hnot ih =>
    obtain ⟨u, hleads, hu⟩ := ih
    refine ⟨u, .layer ?_ hleads, hu⟩
    rw [deref?, addressed]
    exact hnot
  | case5 content ih =>
    obtain ⟨u, hleads, hu⟩ := ih
    exact ⟨u, .layer rfl hleads, hu⟩
  | case6 v _ _ hptr hbox =>
    refine ⟨v, .refl _, ?_⟩
    unfold deref?
    split
    · exact absurd rfl (hptr _)
    · exact absurd rfl (hbox _)
    · rfl

/-- A value without layers that is not nil is reached at once. -/
theorem reach_eq_some_of_plain (hlayer : u.deref? = none) (hnil : u.isNil = false) :
    u.reach = some u := by
  cases u with
  | ptr | box => cases hlayer
  | nilPtr | nilBox => cases hnil
  | _ => rfl

/-- A record without the field answers the error for missing fields. -/
theorem answers_missingField (hfield : ∀ v, ¬(record ty fields addressable).HasField name v) :
    (record ty fields addressable).Answers schema name
      (.error (missingField schema name (record ty fields addressable))) := by
  rw [missingField]
  cases hm : schema.method? ty name with
  | none => exact .unknown hfield fun m h => by rw [declares_iff, hm] at h; cases h
  | some m =>
    cases hkind : m.receiver with
    | pointer => simpa [hkind] using Answers.pointerOnly hfield (declares_iff.mpr hm) hkind
    | value =>
      have hunknown : (record ty fields addressable).Answers schema name
          (.error (.fieldNotFound name ty.name)) :=
        .unknown hfield fun m' h => by rw [declares_iff, hm] at h; cases h; simp [hkind]
      simpa [hkind] using hunknown

/-- What is looked up behind all pointers and boxes is what the value there answers. -/
theorem answers_plainField (hlayer : u.deref? = none) (hnil : u.isNil = false) :
    u.Answers schema name (u.plainField schema name) := by
  cases u with
  | nil | nilPtr | nilBox => cases hnil
  | ptr | box => cases hlayer
  | bool | int | float | text | seq | func | stream => exact .other rfl
  | map kind entries =>
    cases kind with
    | text => exact .entry (hasEntry_entryFor name entries)
    | bool | int | float => exact .other rfl
  | record ty fields addressable =>
    rw [plainField]
    split
    · next w hfield => exact .field (field?_eq_some_iff.mp hfield) (unboxes_iff.mpr rfl)
    · next hfield => exact answers_missingField (field?_eq_none_iff.mp hfield)

/-- Only records have fields. -/
theorem HasField.exists_record (h : u.HasField name w) :
    ∃ ty fields addressable, u = .record ty fields addressable := by
  cases h with
  | plain | addressable => exact ⟨_, _, _, rfl⟩

/-- A nil answers nil. -/
theorem Answers.eq_nil {r : Except RuntimeError Value} (h : u.Answers schema name r)
    (hnil : u.isNil = true) : r = .ok .nil := by
  cases h with
  | nil => rfl
  | field hfield =>
    obtain ⟨ty, fields, addressable, rfl⟩ := hfield.exists_record
    cases hnil
  | entry | pointerOnly | unknown => cases hnil
  | other hnameless =>
    cases u with
    | nil | nilPtr | nilBox => simp [isNameless] at hnameless
    | _ => cases hnil

/-- Everything else has no other answer than what is looked up on it. -/
theorem Answers.eq_plainField {r : Except RuntimeError Value} (h : u.Answers schema name r)
    (hnil : u.isNil = false) : r = u.plainField schema name := by
  cases h with
  | nil htrue => rcases htrue with rfl | rfl | rfl <;> cases hnil
  | field hfield hbox =>
    obtain ⟨ty, fields, addressable, rfl⟩ := hfield.exists_record
    rw [plainField, field?_eq_some_iff.mpr hfield]
    exact congrArg Except.ok (unboxes_iff.mp hbox).symm
  | entry hentry => exact congrArg Except.ok (hasEntry_iff.mp hentry).symm
  | pointerOnly hfield hm hkind =>
    rw [plainField, field?_eq_none_iff.mpr hfield]
    simp [missingField, declares_iff.mp hm, hkind]
  | unknown hfield hm =>
    rw [plainField, field?_eq_none_iff.mpr hfield]
    refine congrArg Except.error (Eq.symm (if_neg ?_))
    rw [Option.any_eq_true]
    rintro ⟨m, h, hkind⟩
    exact hm m (declares_iff.mpr h) (by simpa using hkind)
  | other hnameless =>
    cases u with
    | map kind entries =>
      cases kind with
      | text => cases hnameless
      | bool | int | float => rfl
    | bool | int | float | text | seq | func | stream => rfl
    | _ => cases hnameless

/-- A value without pointers and boxes around it has an answer for each name. -/
theorem exists_answers (hlayer : u.deref? = none) : ∃ r, u.Answers schema name r := by
  cases hnil : u.isNil with
  | true => exact ⟨_, .nil (by cases u <;> simp_all [isNil])⟩
  | false => exact ⟨_, answers_plainField hlayer hnil⟩

end Value

/-- What an access to a name does on a value that has just been taken from a machine: a map with text
keys has its entries, then methods come before fields. A result is put on the stack, and where there is
none the access fails. -/
inductive Resolves (schema : Schema) (name : String) (argc : Nat) (m : Machine) :
    Value → Step → Prop where
  | entry {entries : List (Key × Value)} {w : Value} (hentry : Value.HasEntry name entries w) :
      Resolves schema name argc m (.map .text entries) (.next { m with stack := w :: m.stack })
  | method {v receiver w : Value} {method : Method} {args below : List Value}
      (hmap : ∀ entries, v ≠ .map .text entries) (happlies : v.Applies schema name method receiver)
      (hstack : m.stack = args ++ below) (hargs : args.length = argc)
      (hresult : Call.method method receiver args = .ok w) :
      Resolves schema name argc m v (.next { m with stack := w :: below })
  | methodFails {v receiver : Value} {method : Method} {args below : List Value} {e : RuntimeError}
      (hmap : ∀ entries, v ≠ .map .text entries) (happlies : v.Applies schema name method receiver)
      (hstack : m.stack = args ++ below) (hargs : args.length = argc)
      (hresult : Call.method method receiver args = .error e) :
      Resolves schema name argc m v (.fail e { m with stack := below })
  | underflow {v receiver : Value} {method : Method}
      (hmap : ∀ entries, v ≠ .map .text entries) (happlies : v.Applies schema name method receiver)
      (hstack : m.stack.length < argc) :
      Resolves schema name argc m v (.fail (.invalidCode "stack underflow") m)
  | field {v u w : Value} (hmap : ∀ entries, v ≠ .map .text entries)
      (hmethod : ∀ method receiver, ¬ v.Applies schema name method receiver) (hleads : v.LeadsTo u)
      (hlayer : u.deref? = none) (hanswers : u.Answers schema name (.ok w)) :
      Resolves schema name argc m v (.next { m with stack := w :: m.stack })
  | missing {v u : Value} {e : RuntimeError} (hmap : ∀ entries, v ≠ .map .text entries)
      (hmethod : ∀ method receiver, ¬ v.Applies schema name method receiver) (hleads : v.LeadsTo u)
      (hlayer : u.deref? = none) (hanswers : u.Answers schema name (.error e)) :
      Resolves schema name argc m v (.fail e m)

namespace Machine

variable {schema : Schema} {t : Tables} {m : Machine} {v : Value} {name : String} {argc : Nat} {s : Step}

/-- A map with text keys is asked for its entry. -/
theorem fieldOf_map (entries : List (Key × Value)) :
    m.fieldOf schema name argc (.map .text entries) =
      .next (m.push (Value.entryFor name entries).unboxed) := rfl

/-- A method that applies is called. -/
theorem fieldOf_method {method : Method} {receiver : Value} (hmap : ∀ entries, v ≠ .map .text entries)
    (happlies : v.Applies schema name method receiver) :
    m.fieldOf schema name argc v =
      match m.popArgs? argc with
      | none => m.invalid "stack underflow"
      | some (args, m) => m.pushResult (Call.method method receiver args) := by
  unfold fieldOf
  split
  · exact absurd rfl (hmap _)
  · have hsome := Value.method?_eq_some_iff.mpr happlies
    cases m.popArgs? argc <;> simp only [hsome]

/-- If none applies, the value behind all pointers and boxes is asked. -/
theorem fieldOf_field (hmap : ∀ entries, v ≠ .map .text entries)
    (hmethod : ∀ method receiver, ¬ v.Applies schema name method receiver) :
    m.fieldOf schema name argc v =
      match v.reach with
      | none => .next (m.push .nil)
      | some w => m.pushResult (w.plainField schema name) := by
  have hnone : v.method? schema name = none := by
    rw [Option.eq_none_iff_forall_ne_some]
    exact fun ⟨method, receiver⟩ h => hmethod method receiver (Value.method?_eq_some_iff.mp h)
  unfold fieldOf
  split
  · exact absurd rfl (hmap _)
  · cases v.reach <;> simp only [hnone]

/-- What an access to a field does is told by the answer of the value that is reached. -/
theorem fieldOf_of_answers {u : Value} {r : Except RuntimeError Value}
    (hmap : ∀ entries, v ≠ .map .text entries)
    (hmethod : ∀ method receiver, ¬ v.Applies schema name method receiver) (hleads : v.LeadsTo u)
    (hlayer : u.deref? = none) (hanswers : u.Answers schema name r) :
    m.fieldOf schema name argc v = m.pushResult r := by
  rw [fieldOf_field hmap hmethod, Value.reach_of_leadsTo hleads]
  cases hnil : u.isNil with
  | false =>
    rw [Value.reach_eq_some_of_plain hlayer hnil, hanswers.eq_plainField hnil]
  | true =>
    rw [hanswers.eq_nil hnil]
    cases u with
    | nil | nilPtr | nilBox => rfl
    | _ => cases hnil

/-- A call of a method with enough arguments does what the call answers. -/
theorem fieldOf_call {method : Method} {receiver : Value} {args below : List Value}
    (hmap : ∀ entries, v ≠ .map .text entries) (happlies : v.Applies schema name method receiver)
    (hstack : m.stack = args ++ below) (hargs : args.length = argc) :
    m.fieldOf schema name argc v =
      { m with stack := below }.pushResult (Call.method method receiver args) := by
  rw [fieldOf_method hmap happlies, popArgs?, if_pos (by simp [hstack, hargs])]
  simp [hstack, ← hargs]

/-- The rules tell what an access does. -/
theorem fieldOf_of_resolves (h : Resolves schema name argc m v s) :
    m.fieldOf schema name argc v = s := by
  cases h with
  | entry hentry => rw [fieldOf_map, Value.hasEntry_iff.mp hentry, push]
  | method hmap happlies hstack hargs hresult =>
    rw [fieldOf_call hmap happlies hstack hargs, hresult]
    rfl
  | methodFails hmap happlies hstack hargs hresult =>
    rw [fieldOf_call hmap happlies hstack hargs, hresult]
    rfl
  | underflow hmap happlies hstack =>
    rw [fieldOf_method hmap happlies, popArgs?, if_neg (Nat.not_le_of_lt hstack)]
    rfl
  | field hmap hmethod hleads hlayer hanswers | missing hmap hmethod hleads hlayer hanswers =>
    rw [fieldOf_of_answers hmap hmethod hleads hlayer hanswers]
    rfl

/-- There is a rule for what an access does. -/
theorem resolves_fieldOf (schema : Schema) (name : String) (argc : Nat) (m : Machine) (v : Value) :
    Resolves schema name argc m v (m.fieldOf schema name argc v) := by
  by_cases hentries : ∃ entries, v = .map .text entries
  · obtain ⟨entries, rfl⟩ := hentries
    exact .entry (Value.hasEntry_entryFor name entries)
  have hmap : ∀ entries, v ≠ .map .text entries := fun entries h => hentries ⟨entries, h⟩
  by_cases hmethod : ∃ method receiver, v.Applies schema name method receiver
  · obtain ⟨method, receiver, happlies⟩ := hmethod
    by_cases hargc : argc ≤ m.stack.length
    · have hstack : m.stack = m.stack.take argc ++ m.stack.drop argc :=
        (List.take_append_drop argc m.stack).symm
      have hargs := List.length_take_of_le hargc
      rw [fieldOf_call hmap happlies hstack hargs]
      cases hresult : Call.method method receiver (m.stack.take argc) with
      | ok w => exact .method hmap happlies hstack hargs hresult
      | error e => exact .methodFails hmap happlies hstack hargs hresult
    · rw [fieldOf_method hmap happlies, popArgs?, if_neg hargc]
      exact .underflow hmap happlies (Nat.lt_of_not_le hargc)
  · have hnot : ∀ method receiver, ¬ v.Applies schema name method receiver :=
      fun method receiver h => hmethod ⟨method, receiver, h⟩
    obtain ⟨u, hleads, hlayer⟩ := v.exists_leadsTo
    obtain ⟨r, hanswers⟩ := u.exists_answers hlayer
    rw [fieldOf_of_answers hmap hnot hleads hlayer hanswers]
    cases r with
    | ok w => exact .field hmap hnot hleads hlayer hanswers
    | error e => exact .missing hmap hnot hleads hlayer hanswers

/-- The rules tell exactly what an access does. -/
theorem fieldOf_eq_iff :
    m.fieldOf schema name argc v = s ↔ Resolves schema name argc m v s :=
  ⟨fun h => h ▸ resolves_fieldOf schema name argc m v, fieldOf_of_resolves⟩

/-- An access neither reads nor changes what lies below the values that it takes. -/
theorem fieldOf_append (below : List Value)
    (h : argc ≤ m.stack.length ∨ ∀ method receiver, ¬ v.Applies schema name method receiver) :
    { m with stack := m.stack ++ below }.fieldOf schema name argc v =
      (m.fieldOf schema name argc v).map fun m' => { m' with stack := m'.stack ++ below } := by
  have hg : Overlays (fun m => { m with stack := m.stack ++ below }) below := fun _ _ => rfl
  refine hg.fieldOf.resolve_right fun ⟨_, hlt, hmethod, _⟩ => ?_
  obtain ⟨⟨method, receiver⟩, hmethod⟩ := Option.isSome_iff_exists.mp hmethod
  rcases h with hargc | hnot
  · omega
  · exact hnot method receiver (Value.method?_eq_some_iff.mp hmethod)

/-- The instruction that accesses a field takes the value on top of the stack and does what the rules
tell. A method that it calls gets a receiver that fits it, and nothing below the values that it takes
is read or changed. -/
theorem field_resolves {index : Nat} {rest : List Value} (hname : t.strings[index]? = some name)
    (hstack : m.stack = v :: rest) :
    (∀ method receiver, v.Applies schema name method receiver →
      receiver.Fits schema name method ∧ (method.receiver = .pointer →
        ∃ w, v.Wraps w ∧ (w = receiver ∨ receiver = .ptr w ∧ w.isAddressable = true))) ∧
    (∀ s, m.step schema t (.field argc index) = s ↔
      Resolves schema name argc { m with stack := rest } v s) ∧
    ∀ below, (argc ≤ rest.length ∨ ∀ method receiver, ¬ v.Applies schema name method receiver) →
      { m with stack := m.stack ++ below }.step schema t (.field argc index) =
        (m.step schema t (.field argc index)).map fun m' =>
          { m' with stack := m'.stack ++ below } := by
  have hstep : m.step schema t (.field argc index) =
      { m with stack := rest }.fieldOf schema name argc v := by simp only [step, hname, hstack]
  refine ⟨fun method receiver happlies => ?_, fun s => ?_, fun below h => ?_⟩
  · obtain ⟨w, hwraps, hmethod⟩ := happlies
    exact ⟨hmethod.fits, fun hkind => ⟨w, hwraps, hmethod.pointer_or_addressable hkind⟩⟩
  · rw [hstep, fieldOf_eq_iff]
  · rw [hstep, ← fieldOf_append below h]
    simp only [step, hname, hstack, List.cons_append]

namespace Sample

/-- The type of pages, which have a title. -/
def page : RecordType := ⟨1, "Page", ["Title"]⟩

/-- A method on pointers that answers its argument. -/
def rename : Method :=
  ⟨"Rename", .pointer, ⟨[.any], none, .any⟩, fun _ args => .ok (args.head?.getD .nil)⟩

/-- Pages have the method. -/
def pages : Schema := ⟨fun ty => if ty = page then ⟨[rename], none⟩ else .plain⟩

/-- The names of the method and of the field. -/
def names : Tables := { Tables.empty with strings := #["Rename", "Title"] }

/-- An addressable page in boxes. -/
def home : Value := .box (.ptr (.box (.record page [.str "Home"] true)))

/-- A page that is not addressable. -/
def copy : Value := .record page [.str "Copy"] false

/-- A map with an entry in a box. -/
def index : Value := .map .text [(.text "Name", .nil), (.text "Title", .box (.str "Index"))]

/-- A value on an argument and a value that belongs to somebody else. -/
def machine (v : Value) : Machine := { fresh .unlimited .none with stack := [v, .int 1, .int 2] }

/-- The sample page declares its method. -/
theorem declares_rename : pages.Declares page "Rename" rename :=
  ⟨[], [], rfl, rfl, fun _ h => nomatch h⟩

/-- The method of the sample applies to its address. -/
theorem home_applies :
    home.Applies pages "Rename" rename (.ptr (.record page [.str "Home"] true)) :=
  ⟨_, .box (.pointer (.refl _)), .address declares_rename rfl⟩

/-- The boxes lead to the page. -/
theorem home_leadsTo : home.LeadsTo (.record page [.str "Home"] true) :=
  .layer rfl (.layer rfl (.layer rfl (.refl _)))

/-- The page answers its title. -/
theorem page_answers :
    (Value.record page [.str "Home"] true).Answers pages "Title" (.ok (.str "Home")) := by
  have hnames : page.fields = [] ++ "Title" :: [] := rfl
  have hvalue : [Value.str "Home"][([] : List String).length]? = some (.str "Home") := rfl
  exact .field (.addressable hnames List.not_mem_nil hvalue) (.bare fun _ h => nomatch h)

/-- The map has its entry, without the box. -/
theorem index_hasEntry :
    Value.HasEntry "Title" [(.text "Name", .nil), (.text "Title", .box (.str "Index"))]
      (.str "Index") := by
  have hname : ∀ e ∈ [(Key.text "Name", Value.nil)], e.1 ≠ .text "Title" := by simp
  exact .entry hname (.box (.str "Index"))

/-- Pages have no method of the name of their field. -/
theorem not_applies_title {v : Value} (h : v.method? pages "Title" = none) (m : Method)
    (receiver : Value) : ¬v.Applies pages "Title" m receiver := by
  rw [← Value.method?_eq_some_iff, h]
  nofun

/-- Their other name is that of a method on pointers. -/
theorem copy_not_applies (m : Method) (receiver : Value) :
    ¬copy.Applies pages "Rename" m receiver := by
  have hnone : copy.method? pages "Rename" = none := rfl
  rw [← Value.method?_eq_some_iff, hnone]
  nofun

/-- A page that is not addressable has no field of the name of the method. -/
theorem copy_answers :
    copy.Answers pages "Rename" (.error (.requiresPointerReceiver "Rename" "Page")) :=
  .pointerOnly (Value.field?_eq_none_iff.mp rfl) declares_rename rfl

end Sample

/-- In the sample a method, a field and an entry are found, and a method that needs an address is not. -/
theorem field_resolves_sample :
    Sample.names.strings[0]? = some "Rename" ∧ Sample.names.strings[1]? = some "Title" ∧
      (Value.ptr (.record Sample.page [.str "Home"] true)).Fits Sample.pages "Rename" Sample.rename ∧
      (Sample.machine Sample.home).step Sample.pages Sample.names (.field 1 0) =
        .next { Sample.machine Sample.home with stack := [.int 1, .int 2] } ∧
      { Sample.machine Sample.home with stack := (Sample.machine Sample.home).stack ++ [Value.int 3] }.step
          Sample.pages Sample.names (.field 1 0) =
        .next { Sample.machine Sample.home with stack := [.int 1, .int 2, .int 3] } ∧
      (Sample.machine Sample.home).step Sample.pages Sample.names (.field 0 1) =
        .next { Sample.machine Sample.home with stack := [.str "Home", .int 1, .int 2] } ∧
      (Sample.machine Sample.index).step Sample.pages Sample.names (.field 0 1) =
        .next { Sample.machine Sample.index with stack := [.str "Index", .int 1, .int 2] } ∧
      (Sample.machine Sample.copy).step Sample.pages Sample.names (.field 0 0) =
        .fail (.requiresPointerReceiver "Rename" "Page")
          { Sample.machine Sample.copy with stack := [.int 1, .int 2] } := by
  obtain ⟨hfits, hrules, hframe⟩ := @field_resolves Sample.pages Sample.names
    (Sample.machine Sample.home) Sample.home "Rename" 1 0 [.int 1, .int 2] rfl rfl
  obtain ⟨-, hfield, -⟩ := @field_resolves Sample.pages Sample.names
    (Sample.machine Sample.home) Sample.home "Title" 0 1 [.int 1, .int 2] rfl rfl
  obtain ⟨-, hentry, -⟩ := @field_resolves Sample.pages Sample.names
    (Sample.machine Sample.index) Sample.index "Title" 0 1 [.int 1, .int 2] rfl rfl
  obtain ⟨-, hmissing, -⟩ := @field_resolves Sample.pages Sample.names
    (Sample.machine Sample.copy) Sample.copy "Rename" 0 0 [.int 1, .int 2] rfl rfl
  have hresult : Call.method Sample.rename (.ptr (.record Sample.page [.str "Home"] true)) [.int 1] =
      .ok (.int 1) := rfl
  have hstep : (Sample.machine Sample.home).step Sample.pages Sample.names (.field 1 0) =
      .next { Sample.machine Sample.home with stack := [.int 1, .int 2] } :=
    (hrules _).mpr (.method (fun _ h => nomatch h) Sample.home_applies rfl rfl hresult)
  refine ⟨rfl, rfl, (hfits _ _ Sample.home_applies).1, hstep, ?_, ?_, ?_, ?_⟩
  · rw [hframe [.int 3] (.inl (by decide)), hstep]
    rfl
  · exact (hfield _).mpr (.field (fun _ h => nomatch h) (Sample.not_applies_title rfl)
      Sample.home_leadsTo rfl Sample.page_answers)
  · exact (hentry _).mpr (.entry Sample.index_hasEntry)
  · exact (hmissing _).mpr (.missing (fun _ h => nomatch h) Sample.copy_not_applies (.refl _) rfl
      Sample.copy_answers)

end Machine
end Stencil
