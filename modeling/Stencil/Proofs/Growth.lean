import Stencil.Compile.Pipeline

/-!
# Growing tables

Compilation only adds entries to the tables of a program, so an operand of an instruction keeps its
meaning. The indices that the tables remember for strings and functions stay those of their entries.
-/

namespace Stencil

namespace Tables

/-- Whether all entries of a table keep their indices in another one. -/
structure Extends (t t' : Tables) : Prop where
  strings : ∀ (i : Nat) (s : String), t.strings[i]? = some s → t'.strings[i]? = some s
  texts : ∀ (i : Nat) (s : String), t.texts[i]? = some s → t'.texts[i]? = some s
  values : ∀ (i : Nat) (v : Value), t.values[i]? = some v → t'.values[i]? = some v
  chunks : ∀ (i : Nat) (bytes : ByteArray), t.chunks[i]? = some bytes → t'.chunks[i]? = some bytes
  funcs : ∀ (i : Nat) (f : Function), t.funcs[i]? = some f → t'.funcs[i]? = some f

/-- Whether the remembered indices are those of the entries, and the texts are the strings. -/
structure Sound (t : Tables) : Prop where
  strings : ∀ (s : String) (i : Nat), t.stringIndex[s]? = some i → t.strings[i]? = some s
  texts : t.texts = t.strings
  funcs : ∀ (name : String) (i : Nat), t.funcIndex[name]? = some i → i < t.funcs.size

/-- Tables have grown from themselves. -/
theorem Extends.refl (t : Tables) : Extends t t :=
  ⟨fun _ _ => id, fun _ _ => id, fun _ _ => id, fun _ _ => id, fun _ _ => id⟩

/-- Tables that have grown twice have grown. -/
theorem Extends.trans {t t' t'' : Tables} (h : Extends t t') (h' : Extends t' t'') :
    Extends t t'' where
  strings i s hi := h'.strings i s (h.strings i s hi)
  texts i s hi := h'.texts i s (h.texts i s hi)
  values i v hi := h'.values i v (h.values i v hi)
  chunks i bytes hi := h'.chunks i bytes (h.chunks i bytes hi)
  funcs i f hi := h'.funcs i f (h.funcs i f hi)

/-- An index stays inside a table that grows. -/
theorem lt_size_of_extends {α : Type} {xs ys : Array α}
    (h : ∀ (i : Nat) (x : α), xs[i]? = some x → ys[i]? = some x) {i : Nat} (hi : i < xs.size) :
    i < ys.size :=
  (Array.getElem?_eq_some_iff.mp (h i xs[i] (Array.getElem?_eq_getElem hi))).1

/-- An entry lies inside its table. -/
theorem lt_size_of_entry {α : Type} {xs : Array α} {i : Nat} {x : α} (h : xs[i]? = some x) :
    i < xs.size :=
  (Array.getElem?_eq_some_iff.mp h).1

/-- An entry that is added leaves the others in their places. -/
theorem getElem?_push_of_some {α : Type} (xs : Array α) (x : α) (i : Nat) (y : α)
    (h : xs[i]? = some y) : (xs.push x)[i]? = some y := by
  obtain ⟨hi, -⟩ := Array.getElem?_eq_some_iff.mp h
  rw [Array.getElem?_push, if_neg (by omega), h]

/-- The tables that a program starts with are sound. -/
theorem sound_initial : initial.Sound where
  strings s i h := by
    simp only [initial, Std.TreeMap.getElem?_insert] at h
    split at h
    · next heq =>
      cases h
      rw [← Std.compare_eq_iff_eq.mp heq]
      rfl
    · split at h
      · next heq =>
        cases h
        rw [← Std.compare_eq_iff_eq.mp heq]
        rfl
      · cases h
  texts := rfl
  funcs name i h := by cases h

variable {t t' : Tables} {i : Nat}

/-- A known string has its index; a new one goes behind the others. -/
theorem addString_cases {s : String} (h : t.addString s = some (i, t')) :
    (t.stringIndex[s]? = some i ∧ t' = t) ∨
      t.stringIndex[s]? = none ∧ i = t.strings.size ∧ i < wordLimit ∧
        t' = { t with
          strings := t.strings.push s
          stringIndex := t.stringIndex.insert s t.strings.size
          texts := t.texts.push s } := by
  unfold addString at h
  split at h
  · next hindex =>
    cases h
    exact .inl ⟨hindex, rfl⟩
  · next hindex =>
    simp only at h
    split at h
    · next hlt =>
      cases h
      exact .inr ⟨hindex, rfl, hlt, rfl⟩
    · cases h

/-- A value goes behind the others. -/
theorem addValue_cases {v : Value} (h : t.addValue v = some (i, t')) :
    i = t.values.size ∧ i < wordLimit ∧ t' = { t with values := t.values.push v } := by
  unfold addValue at h
  simp only at h
  split at h
  · next hlt =>
    cases h
    exact ⟨rfl, hlt, rfl⟩
  · cases h

/-- A chunk goes behind the others. -/
theorem addChunk_cases {bytes : ByteArray} (h : t.addChunk bytes = some (i, t')) :
    i = t.chunks.size ∧ i < wordLimit ∧ t' = { t with chunks := t.chunks.push bytes } := by
  unfold addChunk at h
  simp only at h
  split at h
  · next hlt =>
    cases h
    exact ⟨rfl, hlt, rfl⟩
  · cases h

/-- A function of a known name has the index of the name; one of a new name goes behind the others. -/
theorem addFunc_cases {f : Function} (h : t.addFunc f = some (i, t')) :
    (t.funcIndex[f.name]? = some i ∧ t' = t) ∨
      t.funcIndex[f.name]? = none ∧ i = t.funcs.size ∧ i < halfWordLimit ∧
        t' = { t with
          funcs := t.funcs.push f
          funcIndex := t.funcIndex.insert f.name t.funcs.size } := by
  unfold addFunc at h
  split at h
  · next hindex =>
    cases h
    exact .inl ⟨hindex, rfl⟩
  · next hindex =>
    simp only at h
    split at h
    · next hlt =>
      cases h
      exact .inr ⟨hindex, rfl, hlt, rfl⟩
    · cases h

/-- The index of a string is that of an entry with the string. -/
theorem addString_eq_some {s : String} (h : t.addString s = some (i, t')) :
    Extends t t' ∧ (t.Sound → t'.Sound) ∧ (t'.Sound → t'.strings[i]? = some s) := by
  obtain ⟨hknown, rfl⟩ | ⟨-, rfl, -, rfl⟩ := addString_cases h
  · exact ⟨Extends.refl _, id, fun hsound => hsound.strings _ _ hknown⟩
  · refine ⟨⟨getElem?_push_of_some _ _, getElem?_push_of_some _ _, fun _ _ => id, fun _ _ => id,
      fun _ _ => id⟩, ?_, fun _ => Array.getElem?_push_size⟩
    intro hsound
    refine ⟨fun s' j hj => ?_, by rw [hsound.texts], hsound.funcs⟩
    rw [Std.TreeMap.getElem?_insert] at hj
    split at hj
    · next heq =>
      cases hj
      rw [← Std.compare_eq_iff_eq.mp heq]
      exact Array.getElem?_push_size
    · exact getElem?_push_of_some _ _ _ _ (hsound.strings s' j hj)

/-- A value that is added lets the tables grow and is found. -/
theorem addValue_eq_some {v : Value} (h : t.addValue v = some (i, t')) :
    Extends t t' ∧ (t.Sound → t'.Sound) ∧ t'.values[i]? = some v := by
  obtain ⟨rfl, -, rfl⟩ := addValue_cases h
  exact ⟨⟨fun _ _ => id, fun _ _ => id, getElem?_push_of_some _ _, fun _ _ => id, fun _ _ => id⟩,
    fun hsound => ⟨hsound.strings, hsound.texts, hsound.funcs⟩, Array.getElem?_push_size⟩

/-- A text that is added lets the tables grow and is found. -/
theorem addChunk_eq_some {bytes : ByteArray} (h : t.addChunk bytes = some (i, t')) :
    Extends t t' ∧ (t.Sound → t'.Sound) ∧ t'.chunks[i]? = some bytes := by
  obtain ⟨rfl, -, rfl⟩ := addChunk_cases h
  exact ⟨⟨fun _ _ => id, fun _ _ => id, fun _ _ => id, getElem?_push_of_some _ _, fun _ _ => id⟩,
    fun hsound => ⟨hsound.strings, hsound.texts, hsound.funcs⟩, Array.getElem?_push_size⟩

/-- A function that is added lets the tables grow and is inside them. -/
theorem addFunc_eq_some {f : Function} (h : t.addFunc f = some (i, t')) :
    Extends t t' ∧ (t.Sound → t'.Sound) ∧ (t'.Sound → i < t'.funcs.size) := by
  obtain ⟨hknown, rfl⟩ | ⟨-, rfl, -, rfl⟩ := addFunc_cases h
  · exact ⟨Extends.refl _, id, fun hsound => hsound.funcs _ _ hknown⟩
  · refine ⟨⟨fun _ _ => id, fun _ _ => id, fun _ _ => id, fun _ _ => id, getElem?_push_of_some _ _⟩,
      ?_, fun _ => by simp⟩
    intro hsound
    refine ⟨hsound.strings, hsound.texts, fun name j hj => ?_⟩
    rw [Array.size_push]
    rw [Std.TreeMap.getElem?_insert] at hj
    split at hj
    · cases hj
      omega
    · have := hsound.funcs name j hj
      omega

end Tables
end Stencil
