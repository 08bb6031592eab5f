import Stencil.Proofs.Growth

/-!
# Interning

What the tables of a program hold after any sequence of additions. The strings and the functions are kept
with an index of their names each, and every addition keeps the two in step. So an index stands for one
string, or for the functions of one name, of which the table has the first. All that an addition changes in
a table is a new entry behind the others, so what an index stands for never changes.
-/

namespace Stencil

/-- What can be added to the tables of a program. -/
inductive Addition where
  | string (s : String)
  | value (v : Value)
  | chunk (bytes : ByteArray)
  | func (f : Function)

namespace Addition

/-- The number of indices that the table of an addition has. -/
def limit : Addition → Nat
  | func _ => Tables.halfWordLimit
  | _ => Tables.wordLimit

/-- The function that is added. -/
def function? : Addition → Option Function
  | func f => some f
  | _ => none

/-- The functions that are added, in their order. -/
def functions (additions : List Addition) : List Function := additions.filterMap function?

end Addition

namespace Tables

/-- Make an addition: the index that it gets, and the tables with it. -/
def add (t : Tables) : Addition → Option (Nat × Tables)
  | .string s => t.addString s
  | .value v => t.addValue v
  | .chunk bytes => t.addChunk bytes
  | .func f => t.addFunc f

/-- The tables after an addition. One that is refused leaves them as they are. -/
def after (t : Tables) (a : Addition) : Tables := (t.add a).elim t (·.2)

/-- The tables after additions, one after the other. -/
def afterAll (t : Tables) (additions : List Addition) : Tables := additions.foldl after t

/-- What a new program adds to its tables. -/
def created : List Addition := [.string "", .string "Vars"]

/-- Whether one of the additions to the tables of a program has got an index. -/
def Issued (additions : List Addition) (a : Addition) (i : Nat) : Prop :=
  ∃ front rest t, additions = front ++ a :: rest ∧ (empty.afterAll front).add a = some (i, t)

/-- The number of entries in the table of an addition. -/
def sizeFor (t : Tables) : Addition → Nat
  | .string _ => t.strings.size
  | .value _ => t.values.size
  | .chunk _ => t.chunks.size
  | .func _ => t.funcs.size

/-- Whether an addition gets the index of an entry that is there: a string, that of an equal one, and a
function, that of one with its name. -/
def Shares (t : Tables) : Addition → Prop
  | .string s => s ∈ t.strings
  | .func f => ∃ g ∈ t.funcs, g.name = f.name
  | .value _ | .chunk _ => False

/-- Whether what is found at an index is what was added. Of the functions of one name it is the first. -/
def Holds (t : Tables) (functions : List Function) : Addition → Nat → Prop
  | .string s, i => t.strings[i]? = some s ∧ t.texts[i]? = some s
  | .value v, i => t.values[i]? = some v
  | .chunk bytes, i => t.chunks[i]? = some bytes
  | .func f, i => ∃ g, functions.find? (·.name == f.name) = some g ∧ t.funcs[i]? = some g

/-- Whether an index of names has each entry of a table at its place, and nothing else. -/
def InStep {α : Type} (name : α → String) (entries : Array α) (index : Std.TreeMap String Nat) : Prop :=
  ∀ s i, index[s]? = some i ↔ entries[i]?.map name = some s

/-- Whether the strings and the functions are in step with the indices of their names and the texts with
the strings, and no table has more entries than indices. -/
structure Interned (t : Tables) : Prop where
  strings : InStep id t.strings t.stringIndex
  texts : t.texts = t.strings
  funcs : InStep Function.name t.funcs t.funcIndex
  strings_le : t.strings.size ≤ wordLimit
  funcs_le : t.funcs.size ≤ halfWordLimit

/-- Whether the functions of the tables are the first ones of their names among those that were added. Only
a full table can be without a name that was. -/
structure KeepsFirst (t : Tables) (functions : List Function) : Prop where
  first : ∀ g ∈ t.funcs, functions.find? (·.name == g.name) = some g
  kept : ∀ f ∈ functions, (∃ g ∈ t.funcs, g.name = f.name) ∨ halfWordLimit ≤ t.funcs.size

/-! ### Entries and the index of their names -/

section InStep

variable {α : Type} {name : α → String} {entries : Array α} {index : Std.TreeMap String Nat} {x y : α}
  {s : String} {i j : Nat}

/-- An index that is in step with its table finds the entries of the table. -/
theorem InStep.get? (h : InStep name entries index) (hi : entries[i]? = some x) :
    index[name x]? = some i := by
  rw [h, hi, Option.map_some]

/-- Entries of one name are one entry. -/
theorem InStep.injective (h : InStep name entries index) (hi : entries[i]? = some x)
    (hj : entries[j]? = some y) (hname : name x = name y) : i = j := by
  have hx := h.get? hi
  rw [hname, h.get? hj] at hx
  exact (Option.some.inj hx).symm

/-- The names that are indexed are those of the entries. -/
theorem InStep.isSome_iff (h : InStep name entries index) :
    index[s]?.isSome ↔ ∃ x ∈ entries, name x = s := by
  rw [Option.isSome_iff_exists]
  constructor
  · rintro ⟨i, hi⟩
    obtain ⟨x, hx, hname⟩ := Option.map_eq_some_iff.mp ((h s i).mp hi)
    exact ⟨x, Array.mem_of_getElem? hx, hname⟩
  · rintro ⟨x, hx, rfl⟩
    obtain ⟨i, hi⟩ := Array.mem_iff_getElem?.mp hx
    exact ⟨i, h.get? hi⟩

/-- A new entry goes behind the others, and its name is indexed. -/
theorem InStep.push (h : InStep name entries index) (hnew : index[name x]? = none) :
    InStep name (entries.push x) (index.insert (name x) entries.size) := by
  intro s i
  rw [Std.TreeMap.getElem?_insert, Array.getElem?_push]
  have hbehind : entries[entries.size]? = none := Array.getElem?_eq_none (Nat.le_refl _)
  -- The new name is at the new place only, since it was not indexed before.
  by_cases hs : name x = s
  · rw [if_pos (Std.compare_eq_iff_eq.mpr hs), Option.some.injEq]
    by_cases hi : i = entries.size
    · simp [hi, hs]
    · rw [if_neg hi, ← h, ← hs, hnew]
      exact iff_of_false (fun heq => hi heq.symm) nofun
  · rw [if_neg (mt Std.compare_eq_iff_eq.mp hs), h]
    by_cases hi : i = entries.size
    · rw [hi, hbehind, if_pos rfl]
      exact iff_of_false nofun fun heq => hs (Option.some.inj heq)
    · rw [if_neg hi]

end InStep

/-! ### One addition -/

variable {t t' : Tables} {a : Addition} {i : Nat} {s : String} {f : Function} {functions : List Function}

/-- Interned tables are sound. -/
theorem Interned.sound (h : t.Interned) : t.Sound where
  strings s i hi := by simpa using (h.strings s i).mp hi
  texts := h.texts
  funcs name i hi := by
    obtain ⟨f, hf, -⟩ := Option.map_eq_some_iff.mp ((h.funcs name i).mp hi)
    exact lt_size_of_entry hf

/-- An addition keeps all entries at their indices. -/
theorem extends_add (h : t.add a = some (i, t')) : t.Extends t' := by
  cases a with
  | string s => exact (addString_eq_some h).1
  | value v => exact (addValue_eq_some h).1
  | chunk bytes => exact (addChunk_eq_some h).1
  | func f => exact (addFunc_eq_some h).1

/-- Adding keeps tables interned. -/
theorem Interned.add (ht : t.Interned) (h : t.add a = some (i, t')) : t'.Interned := by
  cases a with
  | string s =>
    obtain ⟨-, rfl⟩ | ⟨hnew, rfl, hlt, rfl⟩ := addString_cases h
    · exact ht
    · refine ⟨ht.strings.push hnew, by rw [ht.texts], ht.funcs, ?_, ht.funcs_le⟩
      rw [Array.size_push]
      exact hlt
  | value v =>
    obtain ⟨-, -, rfl⟩ := addValue_cases h
    exact ⟨ht.strings, ht.texts, ht.funcs, ht.strings_le, ht.funcs_le⟩
  | chunk bytes =>
    obtain ⟨-, -, rfl⟩ := addChunk_cases h
    exact ⟨ht.strings, ht.texts, ht.funcs, ht.strings_le, ht.funcs_le⟩
  | func f =>
    obtain ⟨-, rfl⟩ | ⟨hnew, rfl, hlt, rfl⟩ := addFunc_cases h
    · exact ht
    · refine ⟨ht.strings, ht.texts, ht.funcs.push hnew, ht.strings_le, ?_⟩
      rw [Array.size_push]
      exact hlt

/-- The index that an addition gets is one that its table has. -/
theorem Interned.lt_limit (ht : t.Interned) (h : t.add a = some (i, t')) : i < a.limit := by
  cases a with
  | string s =>
    obtain ⟨hi, -⟩ | ⟨-, -, hlt, -⟩ := addString_cases h
    · exact Nat.lt_of_lt_of_le (lt_size_of_entry (ht.sound.strings s i hi)) ht.strings_le
    · exact hlt
  | value v => exact (addValue_cases h).2.1
  | chunk bytes => exact (addChunk_cases h).2.1
  | func f =>
    obtain ⟨hi, -⟩ | ⟨-, -, hlt, -⟩ := addFunc_cases h
    · exact Nat.lt_of_lt_of_le (ht.sound.funcs f.name i hi) ht.funcs_le
    · exact hlt

/-- An addition gets an index just if it shares that of an entry or its table has one left. -/
theorem Interned.isSome_add_iff (ht : t.Interned) (a : Addition) :
    (t.add a).isSome ↔ t.Shares a ∨ t.sizeFor a < a.limit := by
  cases a with
  | string s =>
    have hshares : t.Shares (.string s) ↔ ∃ x ∈ t.strings, id x = s := by simp [Shares]
    rw [hshares, ← ht.strings.isSome_iff, Tables.add, addString]
    cases t.stringIndex[s]? with
    | some i => simp
    | none => simp [sizeFor, Addition.limit]
  | value v => simp [Tables.add, addValue, Shares, sizeFor, Addition.limit]
  | chunk bytes => simp [Tables.add, addChunk, Shares, sizeFor, Addition.limit]
  | func f =>
    rw [Shares, ← ht.funcs.isSome_iff, Tables.add, addFunc]
    cases t.funcIndex[f.name]? with
    | some i => simp
    | none => simp [sizeFor, Addition.limit]

/-- The tables after an addition that fits are those that it gives. -/
theorem after_of_add (h : t.add a = some (i, t')) : t.after a = t' := by
  rw [after, h]
  rfl

/-- An addition is refused or gets an index. -/
theorem after_cases (t : Tables) (a : Addition) :
    (t.add a = none ∧ t.after a = t) ∨ ∃ i, t.add a = some (i, t.after a) := by
  cases h : t.add a with
  | none =>
    rw [after, h]
    exact .inl ⟨rfl, rfl⟩
  | some r => exact .inr ⟨r.1, by rw [after_of_add h]⟩

/-- Tables have grown after an addition, whether it fits or not. -/
theorem extends_after (t : Tables) (a : Addition) : t.Extends (t.after a) := by
  obtain ⟨-, h⟩ | ⟨i, h⟩ := after_cases t a
  · rw [h]
    exact .refl t
  · exact extends_add h

/-- Tables are still interned after an addition, whether it fits or not. -/
theorem Interned.after (ht : t.Interned) (a : Addition) : (t.after a).Interned := by
  obtain ⟨-, h⟩ | ⟨i, h⟩ := after_cases t a
  · rw [h]
    exact ht
  · exact ht.add h

/-! ### The first function of a name -/

/-- Functions that come later hide none that a table has kept. -/
theorem KeepsFirst.find?_append (h : t.KeepsFirst functions) (more : List Function) :
    ∀ g ∈ t.funcs, (functions ++ more).find? (·.name == g.name) = some g := by
  intro g hg
  rw [List.find?_append, h.first g hg, Option.some_or]

/-- A table without a function of a name, and with room for one, has been offered none. -/
theorem KeepsFirst.find?_eq_none (h : t.KeepsFirst functions) (hroom : t.funcs.size < halfWordLimit)
    (hnew : ¬∃ g ∈ t.funcs, g.name = s) : functions.find? (·.name == s) = none := by
  rw [List.find?_eq_none]
  intro g hg hname
  rcases h.kept g hg with hkept | hfull
  · exact hnew (beq_iff_eq.mp hname ▸ hkept)
  · omega

/-- The table can stay as it is if it has a function of the name or is full. -/
theorem KeepsFirst.concat (h : t.KeepsFirst functions)
    (hf : (∃ g ∈ t.funcs, g.name = f.name) ∨ halfWordLimit ≤ t.funcs.size) :
    t.KeepsFirst (functions ++ [f]) where
  first := h.find?_append [f]
  kept := List.forall_mem_append.mpr ⟨h.kept, List.forall_mem_singleton.mpr hf⟩

/-- A function of a new name is the first one, so it can be put behind the others. -/
theorem KeepsFirst.push (h : t.KeepsFirst functions) (hroom : t.funcs.size < halfWordLimit)
    (hnew : ¬∃ g ∈ t.funcs, g.name = f.name) (hpush : t'.funcs = t.funcs.push f) :
    t'.KeepsFirst (functions ++ [f]) where
  first g hg := by
    rw [hpush] at hg
    rcases Array.mem_push.mp hg with hg | rfl
    · exact h.find?_append [f] g hg
    · rw [List.find?_append, h.find?_eq_none hroom hnew, Option.none_or, List.find?_singleton,
        if_pos (beq_self_eq_true _)]
  kept := by
    rw [hpush]
    refine List.forall_mem_append.mpr ⟨fun g hg => ?_, List.forall_mem_singleton.mpr (.inl ?_)⟩
    · rcases h.kept g hg with ⟨g', hg', hname⟩ | hfull
      · exact .inl ⟨g', Array.mem_push_of_mem f hg', hname⟩
      · omega
    · exact ⟨f, Array.mem_push_self, rfl⟩

/-- Adding a function keeps the first one of its name. -/
theorem KeepsFirst.after_func (h : t.KeepsFirst functions) (ht : t.Interned) (f : Function) :
    (t.after (.func f)).KeepsFirst (functions ++ [f]) := by
  obtain ⟨hrefused, hsame⟩ | ⟨i, hadd⟩ := after_cases t (.func f)
  · rw [hsame]
    have hnot := mt (ht.isSome_add_iff (.func f)).mpr (by rw [hrefused]; exact Bool.false_ne_true)
    exact h.concat (.inr (Nat.le_of_not_lt fun hlt => hnot (.inr hlt)))
  · obtain ⟨hindex, hsame⟩ | ⟨hnew, hi, hlt, hpush⟩ := addFunc_cases hadd
    · rw [hsame]
      exact h.concat (.inl (ht.funcs.isSome_iff.mp (by rw [hindex, Option.isSome_some])))
    · refine h.push (hi ▸ hlt) ?_ (by rw [hpush])
      rw [← ht.funcs.isSome_iff, hnew]
      exact Bool.false_ne_true

/-- An addition of something else leaves the functions alone. -/
theorem funcs_of_add (ha : a.function? = none) (h : t.add a = some (i, t')) : t'.funcs = t.funcs := by
  cases a with
  | string s =>
    obtain ⟨-, rfl⟩ | ⟨-, -, -, rfl⟩ := addString_cases h <;> rfl
  | value v =>
    obtain ⟨-, -, rfl⟩ := addValue_cases h
    rfl
  | chunk bytes =>
    obtain ⟨-, -, rfl⟩ := addChunk_cases h
    rfl
  | func f => cases ha

/-- Every addition keeps the first function of each name. -/
theorem KeepsFirst.after (h : t.KeepsFirst functions) (ht : t.Interned) (a : Addition) :
    (t.after a).KeepsFirst (functions ++ a.function?.toList) := by
  cases ha : a.function? with
  | some f =>
    cases a with
    | func g =>
      cases ha
      exact h.after_func ht f
    | _ => cases ha
  | none =>
    have hfuncs : (t.after a).funcs = t.funcs := by
      obtain ⟨-, hsame⟩ | ⟨i, hadd⟩ := after_cases t a
      · rw [hsame]
      · exact funcs_of_add ha hadd
    rw [Option.toList_none, List.append_nil]
    exact ⟨hfuncs ▸ h.first, hfuncs ▸ h.kept⟩

/-! ### All additions to a program -/

variable {additions : List Addition}

/-- Additions are made one after the other. -/
theorem afterAll_append (t : Tables) (front rest : List Addition) :
    t.afterAll (front ++ rest) = (t.afterAll front).afterAll rest := List.foldl_append

/-- Tables have grown after additions. -/
theorem extends_afterAll (t : Tables) (additions : List Addition) : t.Extends (t.afterAll additions) := by
  induction additions generalizing t with
  | nil => exact .refl t
  | cons a rest ih => exact (extends_after t a).trans (ih _)

/-- Empty tables are interned. -/
theorem interned_empty : empty.Interned where
  strings s i := by simp [empty]
  texts := rfl
  funcs s i := by simp [empty]
  strings_le := by simp [empty]
  funcs_le := by simp [empty]

/-- Empty tables keep no functions. -/
theorem keepsFirst_empty : empty.KeepsFirst [] where
  first g hg := by simp [empty] at hg
  kept := nofun

/-- Additions keep tables interned. -/
theorem Interned.afterAll (ht : t.Interned) (additions : List Addition) :
    (t.afterAll additions).Interned := by
  induction additions generalizing t with
  | nil => exact ht
  | cons a rest ih => exact ih (ht.after a)

/-- Additions keep the first function of each name. -/
theorem KeepsFirst.afterAll (h : t.KeepsFirst functions) (ht : t.Interned) (additions : List Addition) :
    (t.afterAll additions).KeepsFirst (functions ++ Addition.functions additions) := by
  -- By induction on what is added, with what was added before kept general.
  induction additions generalizing t functions with
  | nil =>
    rw [Addition.functions, List.filterMap_nil, List.append_nil]
    exact h
  | cons a rest ih =>
    have hrest := ih (h.after ht a) (ht.after a)
    rw [List.append_assoc] at hrest
    have hsplit : Addition.functions (a :: rest) = a.function?.toList ++ Addition.functions rest := by
      cases ha : a.function? <;> simp [Addition.functions, ha]
    rw [hsplit]
    exact hrest

/-- Whatever has been added, the tables are interned. -/
theorem interned_afterAll (additions : List Addition) : (empty.afterAll additions).Interned :=
  interned_empty.afterAll additions

/-- Whatever has been added, the first function of each name has been kept. -/
theorem keepsFirst_afterAll (additions : List Addition) :
    (empty.afterAll additions).KeepsFirst (Addition.functions additions) :=
  keepsFirst_empty.afterAll interned_empty additions

/-- The tables of a new program are what it has added to empty ones. -/
theorem initial_eq : initial = empty.afterAll created := rfl

/-- The tables that a program starts with are empty ones to which something has been added. -/
theorem initial_afterAll (additions : List Addition) :
    initial.afterAll additions = empty.afterAll (created ++ additions) := by
  rw [initial_eq, afterAll_append]

/-- What was added is found at the index that it has got. -/
theorem holds_of_add (ht : t'.Interned) (hfirst : t'.KeepsFirst functions) (h : t.add a = some (i, t')) :
    t'.Holds functions a i := by
  cases a with
  | string s =>
    have hs : t'.strings[i]? = some s := (addString_eq_some h).2.2 ht.sound
    exact ⟨hs, ht.texts ▸ hs⟩
  | value v => exact (addValue_eq_some h).2.2
  | chunk bytes => exact (addChunk_eq_some h).2.2
  | func f =>
    obtain ⟨g, hg, hname⟩ : ∃ g, t'.funcs[i]? = some g ∧ g.name = f.name := by
      obtain ⟨hindex, rfl⟩ | ⟨-, rfl, -, rfl⟩ := addFunc_cases h
      · exact Option.map_eq_some_iff.mp ((ht.funcs f.name i).mp hindex)
      · exact ⟨f, Array.getElem?_push_size, rfl⟩
    exact ⟨g, hname ▸ hfirst.first g (Array.mem_of_getElem? hg), hg⟩

/-- What is found at an index stays there. -/
theorem Holds.mono (h : t.Holds functions a i) (hextends : t.Extends t') (more : List Function) :
    t'.Holds (functions ++ more) a i := by
  cases a with
  | string s => exact ⟨hextends.strings i s h.1, hextends.texts i s h.2⟩
  | value v => exact hextends.values i v h
  | chunk bytes => exact hextends.chunks i bytes h
  | func f =>
    obtain ⟨g, hg, hi⟩ := h
    exact ⟨g, by rw [List.find?_append, hg, Option.some_or], hextends.funcs i g hi⟩

namespace Issued

/-- An index that has been issued refers to what it has been issued for. -/
theorem holds (h : Issued additions a i) :
    (empty.afterAll additions).Holds (Addition.functions additions) a i := by
  obtain ⟨front, rest, t, rfl, hadd⟩ := h
  have hnext : empty.afterAll (front ++ [a]) = t := by
    rw [afterAll_append]
    exact after_of_add hadd
  have hfirst : t.KeepsFirst (Addition.functions (front ++ [a])) := hnext ▸ keepsFirst_afterAll _
  have hholds := holds_of_add ((interned_afterAll front).add hadd) hfirst hadd
  have hrest := hholds.mono (extends_afterAll t rest) (Addition.functions rest)
  rw [List.append_cons, afterAll_append, hnext, Addition.functions, List.filterMap_append]
  exact hrest

/-- An index that has been issued is below the limit of its table. -/
theorem lt_limit (h : Issued additions a i) : i < a.limit := by
  obtain ⟨front, rest, t, -, hadd⟩ := h
  exact (interned_afterAll front).lt_limit hadd

/-- Strings share an index just if they are equal. -/
theorem eq_iff_of_string {s' : String} {i' : Nat} (h : Issued additions (.string s) i)
    (h' : Issued additions (.string s') i') : i = i' ↔ s = s' := by
  have hs := h.holds.1
  have hs' := h'.holds.1
  constructor
  · rintro rfl
    exact Option.some.inj (hs.symm.trans hs')
  · exact (interned_afterAll additions).strings.injective hs hs'

/-- Functions share an index just if they have one name. -/
theorem eq_iff_of_func {f' : Function} {i' : Nat} (h : Issued additions (.func f) i)
    (h' : Issued additions (.func f') i') : i = i' ↔ f.name = f'.name := by
  obtain ⟨g, hg, hi⟩ := h.holds
  obtain ⟨g', hg', hi'⟩ := h'.holds
  have hname : g.name = f.name := by simpa using List.find?_some hg
  have hname' : g'.name = f'.name := by simpa using List.find?_some hg'
  constructor
  · rintro rfl
    obtain rfl := Option.some.inj (hi.symm.trans hi')
    exact hname.symm.trans hname'
  · intro heq
    exact (interned_afterAll additions).funcs.injective hi hi' (by rw [hname, hname', heq])

end Issued

end Tables
end Stencil
