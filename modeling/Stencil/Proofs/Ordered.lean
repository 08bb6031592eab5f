import Stencil.Entries

/-!
# Ordered entries

What inserting associations does. A look-up finds what was inserted last; the keys stay in increasing
order, each once; and entries in that order are what results from inserting them into an empty map.
Which keys there are does not matter as long as their order does not change.
-/

namespace Stencil.Entries

variable {κ κ' α : Type} [Ord κ] [Ord κ'] {key k : κ} {value v : α} {e : κ × α}
  {entries more : List (κ × α)}

/-- Whether no key occurs twice. -/
def Distinct (entries : List (κ × α)) : Prop := entries.Pairwise fun a b => a.1 ≠ b.1

/-- Whether the keys are in increasing order. -/
def Ordered (entries : List (κ × α)) : Prop := entries.Pairwise fun a b => compare a.1 b.1 = .lt

/-! ### Looking up -/

/-- The first entry is found under its key, and all others behind it. -/
theorem get?_cons (key k : κ) (v : α) (rest : List (κ × α)) :
    get? key ((k, v) :: rest) = if compare key k = .eq then some v else get? key rest := rfl

/-- What is found is the value of an entry. -/
theorem exists_mem_of_get? (h : get? key entries = some value) : ∃ e ∈ entries, e.2 = value := by
  induction entries with
  | nil => cases h
  | cons e rest ih =>
    rw [get?_cons] at h
    split at h
    · cases h
      exact ⟨e, List.mem_cons_self, rfl⟩
    · obtain ⟨e', he', hvalue⟩ := ih h
      exact ⟨e', List.mem_cons_of_mem _ he', hvalue⟩

/-- Entries of two lists are inserted one list after the other. -/
theorem ofList_append (entries more : List (κ × α)) :
    ofList (entries ++ more) = insertMany (ofList entries) more := List.foldl_append

section

variable [Std.LawfulEqOrd κ]

/-- Inserting changes what is found under one key. -/
theorem get?_insert (key k : κ) (value : α) (entries : List (κ × α)) :
    get? key (insert k value entries) = if compare key k = .eq then some value else get? key entries := by
  induction entries with
  | nil => rfl
  | cons e rest ih =>
    obtain ⟨k', v'⟩ := e
    rw [insert]
    split
    · rfl
    · next heq =>
      obtain rfl := Std.compare_eq_iff_eq.mp heq
      simp only [get?_cons]
      split <;> rfl
    · next hgt =>
      rw [get?_cons, get?_cons, ih]
      by_cases hkey : compare key k = .eq
      · obtain rfl := Std.compare_eq_iff_eq.mp hkey
        simp [hgt]
      · simp [hkey]

/-- Nothing is found exactly for a key that is not there. -/
theorem get?_eq_none_iff : get? key entries = none ↔ ∀ e ∈ entries, e.1 ≠ key := by
  induction entries with
  | nil => simp [get?]
  | cons e rest ih =>
    obtain ⟨k, v⟩ := e
    rw [get?_cons, List.forall_mem_cons]
    by_cases hkey : key = k
    · simp [hkey]
    · simp [ih, hkey, Ne.symm hkey]

/-- If no key occurs twice, all entries are found. -/
theorem get?_eq_some_iff (h : Distinct entries) :
    get? key entries = some value ↔ (key, value) ∈ entries := by
  induction entries with
  | nil => simp [get?]
  | cons e rest ih =>
    obtain ⟨k, v⟩ := e
    obtain ⟨hfirst, hrest⟩ := List.pairwise_cons.mp h
    rw [get?_cons, List.mem_cons, Prod.mk.injEq]
    by_cases hkey : key = k
    · subst hkey
      have hnot : (key, value) ∉ rest := fun hmem => hfirst _ hmem rfl
      simp [hnot, eq_comm]
    · simp [ih hrest, hkey]

/-- What has been inserted hides what was there. -/
theorem get?_insertMany (h : Distinct more) (entries : List (κ × α)) (key : κ) :
    get? key (insertMany entries more) = (get? key more).or (get? key entries) := by
  induction more generalizing entries with
  | nil => rfl
  | cons e more ih =>
    obtain ⟨k, v⟩ := e
    obtain ⟨hfirst, hmore⟩ := List.pairwise_cons.mp h
    rw [insertMany, List.foldl_cons, ← insertMany, ih hmore, get?_insert, get?_cons]
    by_cases hkey : compare key k = .eq
    · obtain rfl := Std.compare_eq_iff_eq.mp hkey
      have hnone : get? key more = none := get?_eq_none_iff.mpr fun e he => (hfirst e he).symm
      simp [hnone]
    · simp [hkey]

/-- Entries in increasing order have distinct keys. -/
theorem Ordered.distinct (h : Ordered entries) : Distinct entries := by
  refine h.imp fun {a b} hlt heq => ?_
  rw [heq, Std.ReflOrd.compare_self] at hlt
  cases hlt

end

/-! ### The order of the keys -/

/-- What is there after an insertion is the inserted entry or has been there before. -/
theorem mem_insert (h : e ∈ insert k value entries) : e = (k, value) ∨ e ∈ entries := by
  induction entries with
  | nil => exact .inl (List.mem_singleton.mp h)
  | cons e' rest ih =>
    obtain ⟨k', v'⟩ := e'
    rw [insert] at h
    split at h
    · exact List.mem_cons.mp h
    · exact (List.mem_cons.mp h).imp_right (List.mem_cons_of_mem _)
    · rcases List.mem_cons.mp h with rfl | h
      · exact .inr List.mem_cons_self
      · exact (ih h).imp_right (List.mem_cons_of_mem _)

/-- What is there after insertions has been inserted or has been there before. -/
theorem mem_insertMany (h : e ∈ insertMany entries more) : e ∈ entries ∨ e ∈ more := by
  induction more generalizing entries with
  | nil => exact .inl h
  | cons e' more ih =>
    rcases ih h with h | h
    · exact (mem_insert h).symm.imp_right fun heq : e = (e'.1, e'.2) => heq ▸ List.mem_cons_self
    · exact .inr (List.mem_cons_of_mem _ h)

/-- What is in a map has been inserted. -/
theorem mem_of_mem_ofList (h : e ∈ ofList entries) : e ∈ entries :=
  (mem_insertMany h).resolve_left List.not_mem_nil

section

variable [Std.TransOrd κ]

/-- An insertion keeps entries in order. -/
theorem Ordered.insert [Std.LawfulEqOrd κ] (h : Ordered entries) (k : κ) (value : α) :
    Ordered (insert k value entries) := by
  induction entries with
  | nil => exact List.pairwise_singleton _ _
  | cons e rest ih =>
    obtain ⟨k', v'⟩ := e
    obtain ⟨hfirst, hrest⟩ := List.pairwise_cons.mp h
    rw [Entries.insert]
    split
    · next hlt =>
      refine List.pairwise_cons.mpr ⟨List.forall_mem_cons.mpr ⟨hlt, fun e he => ?_⟩, h⟩
      exact Std.TransCmp.lt_trans hlt (hfirst e he)
    · next heq =>
      obtain rfl := Std.compare_eq_iff_eq.mp heq
      exact List.pairwise_cons.mpr ⟨hfirst, hrest⟩
    · next hgt =>
      refine List.pairwise_cons.mpr ⟨fun e he => ?_, ih hrest⟩
      rcases mem_insert he with rfl | he
      · exact Std.OrientedCmp.lt_of_gt hgt
      · exact hfirst e he

/-- Insertions keep entries in order. -/
theorem Ordered.insertMany [Std.LawfulEqOrd κ] (h : Ordered entries) (more : List (κ × α)) :
    Ordered (insertMany entries more) := by
  induction more generalizing entries with
  | nil => exact h
  | cons e more ih => exact ih (h.insert e.1 e.2)

/-- Inserting entries brings them in order. -/
theorem ordered_ofList [Std.LawfulEqOrd κ] (entries : List (κ × α)) : Ordered (ofList entries) :=
  Ordered.insertMany .nil entries

/-- A key behind all others is inserted at the end. -/
theorem insert_of_forall_lt (h : ∀ e ∈ entries, compare e.1 k = .lt) :
    insert k value entries = entries ++ [(k, value)] := by
  induction entries with
  | nil => rfl
  | cons e rest ih =>
    obtain ⟨k', v'⟩ := e
    obtain ⟨hfirst, hrest⟩ := List.forall_mem_cons.mp h
    have hgt : compare k k' = .gt := Std.OrientedCmp.gt_of_lt hfirst
    rw [insert, hgt]
    exact congrArg _ (ih hrest)

/-- Entries in increasing order are inserted where they are. -/
theorem insertMany_of_ordered (h : Ordered (entries ++ more)) :
    insertMany entries more = entries ++ more := by
  induction more generalizing entries with
  | nil => exact (List.append_nil entries).symm
  | cons e more ih =>
    have hlast : ∀ e' ∈ entries, compare e'.1 e.1 = .lt := fun e' he' =>
      (List.pairwise_append.mp h).2.2 e' he' e List.mem_cons_self
    have hsplit : entries ++ e :: more = entries ++ [e] ++ more := by simp
    rw [insertMany, List.foldl_cons, ← insertMany, insert_of_forall_lt hlast, hsplit]
    exact ih (hsplit ▸ h)

/-- Inserting entries that are in order gives these entries. -/
theorem ofList_of_ordered (h : Ordered entries) : ofList entries = entries :=
  insertMany_of_ordered h

end

/-! ### Other keys -/

section

variable {f : κ → κ'}

/-- The entries with other keys. -/
def mapKeys (f : κ → κ') (entries : List (κ × α)) : List (κ' × α) := entries.map fun e => (f e.1, e.2)

/-- Keys may be replaced by others in the same order before or after an insertion. -/
theorem mapKeys_insert (hf : ∀ a b, compare (f a) (f b) = compare a b) (k : κ) (value : α)
    (entries : List (κ × α)) :
    mapKeys f (insert k value entries) = insert (f k) value (mapKeys f entries) := by
  induction entries with
  | nil => rfl
  | cons e rest ih =>
    obtain ⟨k', v'⟩ := e
    simp only [mapKeys, List.map_cons, insert, hf]
    split
    · rfl
    · rfl
    · exact congrArg _ ih

/-- Entries can be inserted under other keys that are in the same order. -/
theorem mapKeys_ofList (hf : ∀ a b, compare (f a) (f b) = compare a b) (entries : List (κ × α)) :
    mapKeys f (ofList entries) = ofList (mapKeys f entries) := by
  suffices h : ∀ start, mapKeys f (insertMany start entries) =
      insertMany (mapKeys f start) (mapKeys f entries) from h []
  induction entries with
  | nil => exact fun _ => rfl
  | cons e entries ih =>
    intro start
    have hstart := mapKeys_insert hf e.1 e.2 start
    exact (ih (insert e.1 e.2 start)).trans (by rw [hstart]; rfl)

end

end Stencil.Entries
