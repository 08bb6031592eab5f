import Stencil.Call
import Stencil.Iteration
import Stencil.Proofs.FieldAccess
import Stencil.Proofs.Ordered
import Stencil.Vars

/-!
# Parts of values

The values that a value is made of, and what the operations on values do with those of them that are
addressable records. A record becomes addressable if a pointer to it is followed, if it is an element of
a sequence that is iterated over, or if it is a field of such a record. Everything else leaves the records
in a value as they are.
-/

namespace Stencil

namespace Value

variable {outer inner outer' inner' : Value → Prop} {schema : Schema} {name : String}
  {v w u r receiver : Value} {method : Method} {ty : RecordType} {fields items : List Value}
  {kind : KeyKind} {entries : List (Key × Value)} {addressable : Bool}

/-- The values that a value is directly made of. -/
def components : Value → List Value
  | seq items => items
  | map _ entries => entries.map (·.2)
  | record _ fields _ => fields
  | ptr v | box v => [v]
  | _ => []

/-- Whether a value is another one or occurs in it. -/
inductive Part (r : Value) : Value → Prop where
  | self : Part r r
  | inside {v w : Value} (hw : w ∈ v.components) (hpart : Part r w) : Part r v

/-- Whether all addressable records in a value are of a kind. -/
def Only (kind : Value → Prop) (v : Value) : Prop :=
  ∀ r, r.Part v → r.isAddressable = true → kind r

/-- Whether a value has no addressable records in it. -/
def IsPlain (v : Value) : Prop := v.Only fun _ => False

/-- Whether all addressable records in a value occur in given ones. -/
def IsFrom (values : List Value) (v : Value) : Prop := v.Only fun r => ∃ w ∈ values, r.Part w

/-- Whether a value, if it is an addressable record, is of one kind, and all addressable records inside
of it are of another one. -/
structure Marked (outer inner : Value → Prop) (v : Value) : Prop where
  self : v.isAddressable = true → outer v
  below : ∀ w ∈ v.components, w.Only inner

/-- A value is larger than each of its components. -/
theorem sizeOf_lt_of_mem_components (h : w ∈ v.components) : sizeOf w < sizeOf v := by
  cases v with
  | seq items =>
    have hlt := List.sizeOf_lt_of_mem h
    simp only [components, seq.sizeOf_spec] at hlt ⊢
    omega
  | map kind entries =>
    obtain ⟨⟨k, w⟩, he, rfl⟩ := List.mem_map.mp h
    have hlt := List.sizeOf_lt_of_mem he
    simp only [Prod.mk.sizeOf_spec, map.sizeOf_spec] at hlt ⊢
    omega
  | record ty fields addressable =>
    have hlt := List.sizeOf_lt_of_mem h
    simp only [components, record.sizeOf_spec] at hlt ⊢
    omega
  | ptr target =>
    rw [List.mem_singleton.mp h]
    simp
  | box content =>
    rw [List.mem_singleton.mp h]
    simp
  | _ => cases h

/-- Induction over what values are made of. -/
@[elab_as_elim]
theorem induction_components {motive : Value → Prop}
    (h : ∀ v, (∀ w ∈ v.components, motive w) → motive v) (v : Value) : motive v := by
  induction hsize : sizeOf v using Nat.strongRecOn generalizing v with
  | ind n ih => exact h v fun w hw => ih _ (hsize ▸ sizeOf_lt_of_mem_components hw) w rfl

/-! ### Kinds of records in a value -/

/-- What is of a kind is of every wider kind. -/
theorem Only.mono (h : v.Only inner) (hsub : ∀ r, inner r → outer r) : v.Only outer :=
  fun r hpart hr => hsub r (h r hpart hr)

/-- The records in a component are of the kind of those in the value. -/
theorem Only.component (h : v.Only inner) (hw : w ∈ v.components) : w.Only inner :=
  fun r hpart => h r (.inside hw hpart)

/-- The records in a value are of a kind exactly if the value itself and those in its components are. -/
theorem only_iff : v.Only inner ↔ (v.isAddressable = true → inner v) ∧ ∀ w ∈ v.components, w.Only inner := by
  refine ⟨fun h => ⟨h v .self, fun w hw => h.component hw⟩, fun ⟨hself, hbelow⟩ r hpart hr => ?_⟩
  cases hpart with
  | self => exact hself hr
  | inside hw hpart => exact hbelow _ hw r hpart hr

/-- The records behind a box are of the kind of those in the value. -/
theorem Only.unboxed (h : v.Only inner) : v.unboxed.Only inner := by
  unfold Value.unboxed
  split
  · exact h.component (List.mem_singleton_self _)
  · exact h

/-- A value that is no record and has no values in it. -/
theorem only_of_components (hself : v.isAddressable = false) (hbelow : v.components = []) :
    v.Only inner := by
  rw [only_iff, hself, hbelow]
  exact ⟨nofun, nofun⟩

/-- What is of an inner kind as a whole is of an outer one outside. -/
theorem Only.marked (h : v.Only inner) (hsub : ∀ r, inner r → outer r) : v.Marked outer inner where
  self hv := hsub v (h v .self hv)
  below _ hw := h.component hw

/-- What is of an inner kind below an outer one is of the outer one as a whole. -/
theorem Marked.only (h : v.Marked outer inner) (hsub : ∀ r, inner r → outer r) : v.Only outer :=
  only_iff.mpr ⟨h.self, fun w hw => (h.below w hw).mono hsub⟩

/-- Kinds may be widened. -/
theorem Marked.mono (h : v.Marked outer inner) (houter : ∀ r, outer r → outer' r)
    (hinner : ∀ r, inner r → inner' r) : v.Marked outer' inner' where
  self hv := houter v (h.self hv)
  below w hw := (h.below w hw).mono hinner

/-- A component is marked as its value is. -/
theorem Marked.component (h : v.Marked outer inner) (hsub : ∀ r, inner r → outer r)
    (hw : w ∈ v.components) : w.Marked outer inner := (h.below w hw).marked hsub

/-- A value without components that is no addressable record is marked. -/
theorem marked_of_components (hself : v.isAddressable = false) (hbelow : v.components = []) :
    v.Marked outer inner where
  self hv := by rw [hself] at hv; cases hv
  below w hw := by rw [hbelow] at hw; cases hw

/-- A key has no addressable records. -/
theorem marked_key (key : Key) : key.toValue.Marked outer inner := by
  cases key <;> exact marked_of_components rfl rfl

/-! ### What leaves the records as they are -/

section

variable (hsub : ∀ r, inner r → outer r)

include hsub

/-- A value behind a box is marked as the value is. -/
theorem Marked.unboxed (h : v.Marked outer inner) : v.unboxed.Marked outer inner := by
  unfold Value.unboxed
  split
  · exact h.component hsub (List.mem_singleton_self _)
  · exact h

/-- The values of a map are marked as the map is. -/
theorem Marked.entry (h : (map kind entries).Marked outer inner) {e : Key × Value} (he : e ∈ entries) :
    e.2.Marked outer inner := h.component hsub (List.mem_map_of_mem he)

omit hsub in
/-- An entry that is looked up is one of the values of the map. -/
theorem only_entryFor (h : ∀ w ∈ (map kind entries).components, w.Only inner) (name : String) :
    (Value.entryFor name entries).Only inner := by
  unfold Value.entryFor
  cases hget : Entries.get? (Key.text name) entries with
  | none => exact only_of_components rfl rfl
  | some v =>
    obtain ⟨e, he, rfl⟩ := Entries.exists_mem_of_get? hget
    exact h _ (List.mem_map_of_mem he)

/-- What is found in a map is marked as the map is. -/
theorem Marked.entryFor (h : (map kind entries).Marked outer inner) (name : String) :
    (Value.entryFor name entries).Marked outer inner := (only_entryFor h.below name).marked hsub

end

/-- What is seen of entries are their values. -/
theorem exists_of_mem_visible {entries : List (Key × Value)} {ns : String} {e : String × Value}
    (he : e ∈ Vars.visible ns (textEntries entries)) : ∃ e' ∈ entries, e'.2 = e.2 := by
  have htext : ∃ e' ∈ textEntries entries, e'.2 = e.2 := by
    rcases List.mem_append.mp he with he | he
    · exact ⟨e, (List.mem_filter.mp he).1, rfl⟩
    · obtain ⟨e', he', hlocal⟩ := List.mem_filterMap.mp he
      obtain ⟨key, -, rfl⟩ := Option.map_eq_some_iff.mp hlocal
      exact ⟨e', he', rfl⟩
  obtain ⟨e', he', hvalue⟩ := htext
  obtain ⟨⟨key, v⟩, hmem, hkey⟩ := List.mem_filterMap.mp he'
  refine ⟨(key, v), hmem, ?_⟩
  cases key with
  | text s => cases hkey; exact hvalue
  | bool | int | float => cases hkey

/-- An unpacked map is marked as the map is. -/
theorem Marked.unpackMap (h : (map kind entries).Marked outer inner) (ns : String) :
    (Value.unpackMap kind entries ns).Marked outer inner := by
  unfold Value.unpackMap
  split
  · exact h
  · refine ⟨nofun, fun w hw => ?_⟩
    obtain ⟨e, he, rfl⟩ := List.mem_map.mp hw
    obtain ⟨e', he', rfl⟩ := List.mem_map.mp (Entries.mem_of_mem_ofList he)
    obtain ⟨e, he, heq⟩ := exists_of_mem_visible he'
    exact heq ▸ h.below _ (List.mem_map_of_mem he)

/-! ### What marks records -/

/-- Following a pointer marks a record. -/
theorem Marked.addressed (h : v.Marked outer inner)
    (hself : v.addressed.isAddressable = true → outer v.addressed) :
    v.addressed.Marked outer inner := by
  refine ⟨hself, ?_⟩
  cases v <;> exact h.below

/-- What a layer leads to is marked, if the records behind pointers are of the outer kind. -/
theorem Marked.deref (hsub : ∀ r, inner r → outer r) (h : v.Marked outer inner)
    (hpointer : ∀ ty fields addressable, v = .ptr (.record ty fields addressable) →
      outer (.record ty fields true))
    (hlayer : v.deref? = some w) : w.Marked outer inner := by
  unfold deref? at hlayer
  split at hlayer
  · next target =>
    cases hlayer
    refine (h.component hsub (List.mem_singleton_self _)).addressed fun haddr => ?_
    cases target with
    | record ty fields addressable => exact hpointer ty fields addressable rfl
    | _ => cases haddr
  · cases hlayer
    exact h.component hsub (List.mem_singleton_self _)
  · cases hlayer

/-- What a value leads to is marked if this is so of the records behind pointers. -/
theorem Marked.leadsTo (hsub : ∀ r, inner r → outer r) (h : v.Marked outer inner)
    (hpointers : ∀ ty fields addressable, v.LeadsTo (.ptr (.record ty fields addressable)) →
      outer (.record ty fields true))
    (hleads : v.LeadsTo u) : u.Marked outer inner := by
  induction hleads with
  | refl => exact h
  | @layer v w u hlayer hrest ih =>
    refine ih (h.deref hsub (fun ty fields addressable heq => ?_) hlayer) fun ty fields addressable hleads =>
      hpointers ty fields addressable (.layer hlayer hleads)
    exact hpointers ty fields addressable (heq ▸ .refl _)

/-- A field of a record is marked if this is so of the fields of addressable records. -/
theorem Marked.field (hsub : ∀ r, inner r → outer r) (h : u.Marked outer inner)
    (hfield : u.HasField name w)
    (hgain : u.isAddressable = true → w.isAddressable = true → outer w) : w.Marked outer inner := by
  cases hfield with
  | plain _ _ hvalue => exact h.component hsub (List.mem_of_getElem? hvalue)
  | addressable _ _ hvalue =>
    exact (h.component hsub (List.mem_of_getElem? hvalue)).addressed fun haddr => hgain rfl haddr

/-- The elements of a sequence are marked if this is so of the records among them. -/
theorem marked_seqEntries (hsub : ∀ r, inner r → outer r) (h : ∀ v ∈ items, v.Marked outer inner)
    (helements : ∀ ty fields addressable, .record ty fields addressable ∈ items →
      outer (.record ty fields true)) {n : Nat} {e : Value × Value}
    (he : e ∈ Iteration.seqEntries n items) : e.1.Marked outer inner ∧ e.2.Marked outer inner := by
  induction items generalizing n with
  | nil => cases he
  | cons v items ih =>
    obtain ⟨hv, hitems⟩ := List.forall_mem_cons.mp h
    rcases List.mem_cons.mp he with rfl | he
    · refine ⟨marked_of_components rfl rfl, .unboxed hsub (hv.addressed fun haddr => ?_)⟩
      cases v with
      | record ty fields addressable => exact helements ty fields addressable List.mem_cons_self
      | _ => cases haddr
    · exact ih hitems (fun ty fields addressable hmem =>
        helements ty fields addressable (List.mem_cons_of_mem _ hmem)) he

end Value

namespace Iteration

/-- The values that an iteration has yet to deliver, apart from those of streams. -/
def values : Iteration → List Value
  | entries rest => rest.flatMap fun e => [e.1, e.2]
  | stream .. => []

variable {outer inner : Value → Prop} {v : Value} {it : Iteration} {rest : List (Value × Value)}

/-- The values of an iteration are marked if its entries are. -/
theorem forall_mem_values (h : ∀ e ∈ rest, e.1.Marked outer inner ∧ e.2.Marked outer inner) :
    ∀ w ∈ (entries rest).values, w.Marked outer inner := by
  intro w hw
  obtain ⟨e, he, hw⟩ := List.mem_flatMap.mp hw
  obtain ⟨hposition, hvalue⟩ := h e he
  rcases List.mem_cons.mp hw with rfl | hw
  · exact hposition
  · exact List.mem_singleton.mp hw ▸ hvalue

/-- What is delivered is marked if this is so of the records in sequences. -/
theorem marked_start (hsub : ∀ r, inner r → outer r) (h : v.Marked outer inner)
    (helements : ∀ items ty fields addressable, v.LeadsTo (.seq items) →
      .record ty fields addressable ∈ items → outer (.record ty fields true))
    (hstart : start v = .ok it) : ∀ w ∈ it.values, w.Marked outer inner := by
  fun_induction start v with
  | case1 | case2 | case3 | case8 =>
    cases hstart
    exact fun w hw => absurd hw List.not_mem_nil
  | case4 v ih =>
    refine ih (h.component hsub (List.mem_singleton_self _)) ?_ hstart
    intro items ty fields addressable hleads hmem
    cases v with
    | record => cases hstart
    | _ => exact helements items ty fields addressable (.layer rfl hleads) hmem
  | case5 v ih =>
    refine ih (h.component hsub (List.mem_singleton_self _)) ?_ hstart
    exact fun items ty fields addressable hleads => helements items ty fields addressable (.layer rfl hleads)
  | case6 items =>
    cases hstart
    exact forall_mem_values fun e he => Value.marked_seqEntries hsub (fun v hv => h.component hsub hv)
      (fun ty fields addressable => helements items ty fields addressable (.refl _)) he
  | case7 kind entries =>
    cases hstart
    refine forall_mem_values fun _ he => ?_
    obtain ⟨e, hmem, rfl⟩ := List.mem_map.mp he
    exact ⟨Value.marked_key e.1, (h.entry hsub hmem).unboxed hsub⟩
  | case9 => cases hstart

end Iteration

/-! ### What callees are passed -/

namespace Value

variable {outer : Value → Prop} {schema : Schema} {name : String} {v w receiver : Value} {method : Method}

/-- What is behind wraps is led to. -/
theorem Wraps.leadsTo (h : v.Wraps w) : v.LeadsTo w := by
  induction h with
  | refl => exact .refl _
  | box _ ih => exact .layer rfl ih
  | pointer _ ih => exact .layer rfl (.layer rfl ih)

/-- Layers lead on to what is behind them. -/
theorem LeadsTo.trans {u : Value} (h : v.LeadsTo w) (h' : w.LeadsTo u) : v.LeadsTo u := by
  induction h with
  | refl => exact h'
  | layer hlayer _ ih => exact .layer hlayer (ih h')

/-- What is behind wraps has the kinds of records of the value. -/
theorem Only.wraps (h : v.Only outer) (hwraps : v.Wraps w) : w.Only outer := by
  induction hwraps with
  | refl => exact h
  | box _ ih => exact ih (h.component (List.mem_singleton_self _))
  | pointer _ ih =>
    exact ih ((h.component (List.mem_singleton_self _)).component (List.mem_singleton_self _))

/-- A single kind is an outer and an inner one. -/
theorem only_iff_marked : v.Only outer ↔ v.Marked outer outer :=
  ⟨fun h => h.marked fun _ => id, fun h => h.only fun _ => id⟩

/-- The receiver of a method is marked if this is so of the records behind pointers. -/
theorem Applies.only (h : v.Only outer)
    (hpointers : ∀ ty fields addressable, v.LeadsTo (.ptr (.record ty fields addressable)) →
      outer (.record ty fields true))
    (happlies : v.Applies schema name method receiver) : receiver.Only outer := by
  have hleads {u : Value} (hu : v.LeadsTo u) : u.Only outer :=
    only_iff_marked.mpr ((only_iff_marked.mp h).leadsTo (fun _ => id) hpointers hu)
  obtain ⟨w, hwraps, hmethod⟩ := happlies
  cases hmethod with
  | record | pointer => exact hleads hwraps.leadsTo
  | target => exact hleads (hwraps.leadsTo.trans (.layer rfl (.refl _)))
  | address =>
    have hw := hleads hwraps.leadsTo
    exact only_iff.mpr ⟨nofun, fun u hu => List.mem_singleton.mp hu ▸ hw⟩

/-- The zero value of a type has no addressable records. -/
theorem only_zero (ty : ParamType) : ty.zero.Only outer := by
  cases ty with
  | record ty =>
    refine only_iff.mpr ⟨nofun, fun w hw => ?_⟩
    have hnil : ty.fields ≠ [] ∧ w = .nil := by simpa [ParamType.zero, recordOf, components] using hw
    exact hnil.2 ▸ only_of_components rfl rfl
  | _ => exact only_of_components rfl rfl

/-- A coerced argument is marked if this is so of a record that it points to. -/
theorem Only.coerce {ty : ParamType} (h : v.Only outer)
    (hpointer : ∀ ty fields addressable, v = .ptr (.record ty fields addressable) →
      outer (.record ty fields true))
    (hcoerce : Call.coerce? ty v = some w) : w.Only outer := by
  unfold Call.coerce? at hcoerce
  split at hcoerce
  · cases hcoerce
    exact only_zero ty
  · cases hcoerce
    exact only_zero ty
  · split at hcoerce
    · cases hcoerce
      exact h
    · split at hcoerce
      · next w' hderef =>
        cases hcoerce
        have hlayer : v.deref? = some w := (Option.filter_eq_some_iff.mp hderef).1
        exact only_iff_marked.mpr ((only_iff_marked.mp h).deref (fun _ => id) hpointer hlayer)
      · split at hcoerce
        · cases hcoerce
          refine only_iff.mpr ⟨fun hrecord => ?_, fun u hu => List.mem_singleton.mp hu ▸ h⟩
          cases hrecord
        · cases hcoerce

/-- An argument is passed as it is or coerced. -/
theorem coerceArgs_cons_eq_ok {sig : Signature} {index : Nat} {args passed : List Value}
    (h : Call.coerceArgs name sig index (v :: args) = .ok passed) :
    ∃ w rest, passed = w :: rest ∧ (w = v ∨ ∃ ty, Call.coerce? ty v = some w) ∧
      Call.coerceArgs name sig (index + 1) args = .ok rest := by
  rw [Call.coerceArgs] at h
  cases hrest : Call.coerceArgs name sig (index + 1) args with
  | error e =>
    rw [hrest] at h
    split at h
    · cases h
    · split at h <;> cases h
  | ok rest =>
    rw [hrest] at h
    split at h
    · cases h
      exact ⟨v, rest, rfl, .inl rfl, rfl⟩
    · next ty _ =>
      split at h
      · cases h
      · next w hw =>
        cases h
        exact ⟨w, rest, rfl, .inr ⟨ty, hw⟩, rfl⟩

/-- The arguments that a callee is passed are marked if this is so of the records they point to. -/
theorem only_coerceArgs {sig : Signature} {index : Nat} {args passed : List Value}
    (h : ∀ v ∈ args, v.Only outer)
    (hpointers : ∀ ty fields addressable, .ptr (.record ty fields addressable) ∈ args →
      outer (.record ty fields true))
    (hcoerce : Call.coerceArgs name sig index args = .ok passed) : ∀ w ∈ passed, w.Only outer := by
  induction args generalizing index passed with
  | nil =>
    cases hcoerce
    nofun
  | cons v args ih =>
    obtain ⟨hv, hargs⟩ := List.forall_mem_cons.mp h
    obtain ⟨w, rest, rfl, hw, hrest⟩ := coerceArgs_cons_eq_ok hcoerce
    have hpassed := ih hargs (fun ty fields addressable hmem =>
      hpointers ty fields addressable (List.mem_cons_of_mem _ hmem)) hrest
    refine List.forall_mem_cons.mpr ⟨?_, hpassed⟩
    rcases hw with rfl | ⟨ty, hw⟩
    · exact hv
    · exact hv.coerce (fun ty fields addressable heq =>
        hpointers ty fields addressable (heq ▸ List.mem_cons_self)) hw

end Value
end Stencil
