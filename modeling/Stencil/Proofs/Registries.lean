import Stencil.Proofs.Escapers
import Stencil.Proofs.Lockstep

/-!
# Registries

What can be relied on about the functions of a registry. A function is found under its own name, and
so it is in the tables of a program: an index that a call of a name gets is that of the function the
name stands for. A registry with the built-in functions has all escapers.
-/

namespace Stencil

namespace Registry

variable {r : Registry} {f : Function} {fs : List Function} {name : String}

/-- Whether each function is registered under its own name, as it is in all registries that are built by
inserting, replacing and erasing functions. -/
def IsKeyed (r : Registry) : Prop := ∀ name f, r.get? name = some f → f.name = name

/-- Whether the results of all functions are of their declared types. -/
def KeepsTypes (r : Registry) : Prop := ∀ name f, r.get? name = some f → f.KeepsType

/-- Whether the names of the escapers stand for the escapers. -/
def HasEscapers (r : Registry) (schema : Schema) : Prop :=
  ∀ f ∈ Builtin.escapers schema, r.get? f.name = some f

/-- Whether something holds for all variants of all names. -/
def All (r : Registry) (P : String → Function → Prop) : Prop :=
  ∀ (name : String) (v : Variants), r.names[name]? = some v →
    ∀ f, v.pure = some f ∨ v.plain = some f → P name f

variable {P : String → Function → Prop}

/-- What holds of all functions holds of one that is found. -/
theorem All.get? (h : r.All P) (hf : r.get? name = some f) : P name f := by
  obtain ⟨v, hv, hpreferred⟩ := Option.bind_eq_some_iff.mp hf
  refine h name v hv f ?_
  rcases Option.or_eq_some_iff.mp hpreferred with hpure | ⟨-, hplain⟩
  · exact .inl hpure
  · exact .inr hplain

/-- An empty registry has no functions. -/
theorem all_empty : empty.All P := by
  intro name v hv
  simp [empty] at hv

/-- Inserting a function only changes what is registered under its name. -/
theorem getElem?_insert (r : Registry) (f : Function) (name : String) :
    (r.insert f).names[name]? =
      if f.name = name then some ((r.names[f.name]?.getD ⟨none, none⟩).insert f)
      else r.names[name]? := by
  rw [insert, Std.TreeMap.getElem?_insert]
  simp only [Std.compare_eq_iff_eq]

/-- What holds of all functions and of one more holds after its insertion. -/
theorem All.insert (h : r.All P) (hf : P f.name f) : (r.insert f).All P := by
  intro name v hv g hg
  rw [getElem?_insert] at hv
  split at hv
  · next hname =>
    subst hname
    cases hv
    have hold : (r.names[f.name]?.getD ⟨none, none⟩).pure = some g ∨
        (r.names[f.name]?.getD ⟨none, none⟩).plain = some g → P f.name g := by
      cases hvariants : r.names[f.name]? with
      | none => exact nofun
      | some v => exact h f.name v hvariants g
    unfold Variants.insert at hg
    split at hg
    · rcases hg with hnew | hplain
      · cases hnew
        exact hf
      · exact hold (.inr hplain)
    · rcases hg with hpure | hnew
      · exact hold (.inl hpure)
      · cases hnew
        exact hf
  · exact h name v hv g hg

/-- What holds of all functions and of several more holds after their insertion. -/
theorem All.insertMany (h : r.All P) (hfs : ∀ f ∈ fs, P f.name f) : (r.insertMany fs).All P := by
  induction fs generalizing r with
  | nil => exact h
  | cons f fs ih =>
    rw [List.forall_mem_cons] at hfs
    exact ih (h.insert hfs.1) hfs.2

/-- A registry that has all of its functions under their own names is keyed. -/
theorem All.isKeyed (h : r.All fun name f => f.name = name) : r.IsKeyed := fun _ _ hf => h.get? hf

/-- A registry whose functions keep their types finds functions that do. -/
theorem All.keepsTypes (h : r.All fun _ f => f.KeepsType) : r.KeepsTypes := fun _ _ hf => h.get? hf

/-! ### Functions that have been registered -/

/-- A pure function is found after its insertion. -/
theorem get?_insert_self (hf : f.pure) : (r.insert f).get? f.name = some f := by
  rw [Registry.get?, getElem?_insert, if_pos rfl, Variants.insert, if_pos hf]
  rfl

/-- Inserting a function hides none of another name. -/
theorem get?_insert_of_ne (hname : f.name ≠ name) : (r.insert f).get? name = r.get? name := by
  rw [Registry.get?, getElem?_insert, if_neg hname, Registry.get?]

/-- Inserting functions hides none of another name. -/
theorem get?_insertMany_of_ne (hname : ∀ f ∈ fs, f.name ≠ name) :
    (r.insertMany fs).get? name = r.get? name := by
  induction fs generalizing r with
  | nil => rfl
  | cons f fs ih =>
    rw [List.forall_mem_cons] at hname
    exact (ih hname.2).trans (get?_insert_of_ne hname.1)

/-- Pure functions of different names are found after they have been registered. -/
theorem get?_insertMany_of_mem (hnames : fs.Pairwise fun f g => f.name ≠ g.name)
    (hpure : ∀ f ∈ fs, f.pure) (hf : f ∈ fs) : (r.insertMany fs).get? f.name = some f := by
  induction fs generalizing r with
  | nil => cases hf
  | cons g fs ih =>
    obtain ⟨hg, hfs⟩ := List.pairwise_cons.mp hnames
    rw [List.forall_mem_cons] at hpure
    rcases List.mem_cons.mp hf with rfl | hmem
    · have hbehind : (r.insertMany (f :: fs)).get? f.name = (r.insert f).get? f.name :=
        get?_insertMany_of_ne fun g' hg' => (hg g' hg').symm
      rw [hbehind, get?_insert_self hpure.1]
    · exact ih hfs hpure.2 hmem

/-! ### The built-in functions -/

/-- The built-in functions have different names. -/
theorem pairwise_name_all (schema : Schema) :
    (Builtin.all schema).Pairwise fun f g => f.name ≠ g.name := by
  have hnames : ((Builtin.all schema).map Function.name).Nodup := by
    have heq : (Builtin.all schema).map Function.name = [Builtin.htmlEscaperName,
      Builtin.htmlStringEscaperName, Builtin.jsEscaperName, Builtin.commentEscaperName, "print",
      "printf", "len", "not", "eq", "lower", "upper"] := rfl
    rw [heq]
    decide +kernel
  exact List.pairwise_map.mp hnames

/-- A registry with the built-in functions has all escapers. -/
theorem hasEscapers_withBuiltins (r : Registry) (schema : Schema) :
    (r.withBuiltins schema).HasEscapers schema := by
  intro f hf
  refine get?_insertMany_of_mem (pairwise_name_all schema) ?_ (List.mem_append_left _ hf)
  simp only [Builtin.all, Builtin.escapers, Builtin.textFunctions, List.cons_append, List.nil_append,
    List.forall_mem_cons, List.not_mem_nil, false_implies, implies_true, and_true]
  exact ⟨rfl, rfl, rfl, rfl, rfl, rfl, rfl, rfl, rfl, rfl, rfl⟩

/-- A registry with the built-in functions finds functions under their own names if it has without them. -/
theorem isKeyed_withBuiltins (h : r.All fun name f => f.name = name) (schema : Schema) :
    (r.withBuiltins schema).IsKeyed := (h.insertMany fun _ _ => rfl).isKeyed

/-- A registry with the built-in functions keeps types if it has without them. -/
theorem keepsTypes_withBuiltins (h : r.All fun _ f => f.KeepsType) (schema : Schema) :
    (r.withBuiltins schema).KeepsTypes := (h.insertMany (Builtin.keepsType_all schema)).keepsTypes

end Registry

/-! ### The functions of a program -/

namespace Tables

variable {r : Registry} {t t' : Tables} {i : Nat} {f : Function}

/-- Whether the functions of a table are those that their names stand for, and can be found by their
names. -/
structure Registered (r : Registry) (t : Tables) : Prop where
  sound : t.Sound
  funcs : ∀ (i : Nat) (f : Function), t.funcs[i]? = some f → r.get? f.name = some f
  names : ∀ (name : String) (i : Nat), t.funcIndex[name]? = some i →
    ∃ f, t.funcs[i]? = some f ∧ f.name = name

/-- No functions are in the tables that a program starts with. -/
theorem registered_initial (r : Registry) : initial.Registered r where
  sound := sound_initial
  funcs i f hf := by simp [initial, empty] at hf
  names name i hi := by simp [initial, empty] at hi

/-- Values and chunks have nothing to do with the functions. -/
theorem Registered.of_alike (h : t.Registered r) (halike : t.Alike t') : t'.Registered r where
  sound := by
    refine ⟨?_, ?_, ?_⟩
    · rw [← halike.strings, ← halike.stringIndex]
      exact h.sound.strings
    · rw [← halike.strings, ← halike.texts]
      exact h.sound.texts
    · rw [← halike.funcs, ← halike.funcIndex]
      exact h.sound.funcs
  funcs := halike.funcs ▸ h.funcs
  names := by
    rw [← halike.funcs, ← halike.funcIndex]
    exact h.names

/-- A string that is added leaves the functions registered. -/
theorem Registered.addString (h : t.Registered r) {s : String} (hadd : t.addString s = some (i, t')) :
    t'.Registered r := by
  have hsound := (addString_eq_some hadd).2.1 h.sound
  obtain ⟨-, rfl⟩ | ⟨-, -, -, rfl⟩ := addString_cases hadd
  · exact h
  · exact ⟨hsound, h.funcs, h.names⟩

/-- The index of a function is that of an entry with the function. -/
theorem Registered.addFunc (h : t.Registered r) (hf : r.get? f.name = some f)
    (hadd : t.addFunc f = some (i, t')) : t'.Registered r ∧ t'.funcs[i]? = some f := by
  have hsound := (addFunc_eq_some hadd).2.1 h.sound
  obtain ⟨hindex, rfl⟩ | ⟨-, rfl, -, rfl⟩ := addFunc_cases hadd
  · obtain ⟨g, hg, hname⟩ := h.names f.name i hindex
    have hsame := h.funcs i g hg
    rw [hname, hf] at hsame
    cases hsame
    exact ⟨h, hg⟩
  · have hnew : (t.funcs.push f)[t.funcs.size]? = some f := Array.getElem?_push_size
    refine ⟨⟨hsound, fun i g hg => ?_, fun name i hi => ?_⟩, hnew⟩
    · have hg : (t.funcs.push f)[i]? = some g := hg
      rw [Array.getElem?_push] at hg
      split at hg
      · cases hg
        exact hf
      · exact h.funcs i g hg
    · have hi : (t.funcIndex.insert f.name t.funcs.size)[name]? = some i := hi
      rw [Std.TreeMap.getElem?_insert] at hi
      split at hi
      · next hname =>
        cases hi
        exact ⟨f, hnew, Std.compare_eq_iff_eq.mp hname⟩
      · obtain ⟨g, hg, hname⟩ := h.names name i hi
        exact ⟨g, getElem?_push_of_some _ _ _ _ hg, hname⟩

end Tables
end Stencil
