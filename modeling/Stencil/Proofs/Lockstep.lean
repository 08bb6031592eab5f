import Stencil.Proofs.Decisions
import Stencil.Proofs.Emission

/-!
# Compiling in lockstep

Two compilations of one template side by side, which may differ in their options. As long as they
intern the same names and functions in the same order their tables differ only in the constants, and
a name or a function has the same index in both.
-/

namespace Stencil

/-- Whether two tables have the same strings and functions. -/
structure Tables.Alike (t t' : Tables) : Prop where
  strings : t.strings = t'.strings
  stringIndex : t.stringIndex = t'.stringIndex
  texts : t.texts = t'.texts
  funcs : t.funcs = t'.funcs
  funcIndex : t.funcIndex = t'.funcIndex

namespace Tables.Alike

variable {t t' t'' : Tables}

/-- Tables are alike themselves. -/
theorem refl (t : Tables) : t.Alike t := ⟨rfl, rfl, rfl, rfl, rfl⟩

/-- Likeness of tables goes both ways. -/
theorem symm (h : t.Alike t') : t'.Alike t :=
  ⟨h.strings.symm, h.stringIndex.symm, h.texts.symm, h.funcs.symm, h.funcIndex.symm⟩

/-- Tables that are alike the same tables are alike. -/
theorem trans (h : t.Alike t') (h' : t'.Alike t'') : t.Alike t'' where
  strings := h.strings.trans h'.strings
  stringIndex := h.stringIndex.trans h'.stringIndex
  texts := h.texts.trans h'.texts
  funcs := h.funcs.trans h'.funcs
  funcIndex := h.funcIndex.trans h'.funcIndex

/-- A string gets the same index in tables with the same strings. -/
theorem addString (h : t.Alike t') {str : String} {i i' : Nat} {u u' : Tables}
    (hadd : t.addString str = some (i, u)) (hadd' : t'.addString str = some (i', u')) :
    u.Alike u' ∧ i = i' := by
  obtain ⟨hi, rfl⟩ | ⟨hnew, rfl, -, rfl⟩ := addString_cases hadd <;>
    obtain ⟨hi', rfl⟩ | ⟨hnew', rfl, -, rfl⟩ := addString_cases hadd'
  · rw [h.stringIndex, hi'] at hi
    exact ⟨h, (Option.some.inj hi).symm⟩
  · rw [h.stringIndex, hnew'] at hi
    cases hi
  · rw [h.stringIndex, hi'] at hnew
    cases hnew
  · exact ⟨⟨by rw [h.strings], by rw [h.stringIndex, h.strings], by rw [h.texts], h.funcs, h.funcIndex⟩,
      by rw [h.strings]⟩

/-- A function gets the same index in tables with the same functions. -/
theorem addFunc (h : t.Alike t') {g : Function} {i i' : Nat} {u u' : Tables}
    (hadd : t.addFunc g = some (i, u)) (hadd' : t'.addFunc g = some (i', u')) :
    u.Alike u' ∧ i = i' := by
  obtain ⟨hi, rfl⟩ | ⟨hnew, rfl, -, rfl⟩ := addFunc_cases hadd <;>
    obtain ⟨hi', rfl⟩ | ⟨hnew', rfl, -, rfl⟩ := addFunc_cases hadd'
  · rw [h.funcIndex, hi'] at hi
    exact ⟨h, (Option.some.inj hi).symm⟩
  · rw [h.funcIndex, hnew'] at hi
    cases hi
  · rw [h.funcIndex, hi'] at hnew
    cases hnew
  · exact ⟨⟨h.strings, h.stringIndex, h.texts, by rw [h.funcs], by rw [h.funcIndex, h.funcs]⟩,
      by rw [h.funcs]⟩

/-- A new value changes neither the strings nor the functions. -/
theorem of_addValue {v : Value} {i : Nat} (hadd : t.addValue v = some (i, t')) : t.Alike t' := by
  obtain ⟨-, -, rfl⟩ := addValue_cases hadd
  exact ⟨rfl, rfl, rfl, rfl, rfl⟩

/-- A text that is added leaves tables alike. -/
theorem of_addChunk {bytes : ByteArray} {i : Nat} (hadd : t.addChunk bytes = some (i, t')) :
    t.Alike t' := by
  obtain ⟨-, -, rfl⟩ := addChunk_cases hadd
  exact ⟨rfl, rfl, rfl, rfl, rfl⟩

end Tables.Alike

namespace Compile

/-- Whether two states of compilation differ only in the constants of their tables. -/
structure State.Alike (s s' : State) : Prop where
  tables : s.tables.Alike s'.tables
  noPrint : s.noPrint = s'.noPrint
  declared : s.declared = s'.declared

namespace State.Alike

variable {s s' s'' : State}

/-- States are alike themselves. -/
theorem refl (s : State) : s.Alike s := ⟨.refl _, rfl, rfl⟩

/-- Likeness of states goes both ways. -/
theorem symm (h : s.Alike s') : s'.Alike s := ⟨h.tables.symm, h.noPrint.symm, h.declared.symm⟩

/-- States that are alike the same state are alike. -/
theorem trans (h : s.Alike s') (h' : s'.Alike s'') : s.Alike s'' :=
  ⟨h.tables.trans h'.tables, h.noPrint.trans h'.noPrint, h.declared.trans h'.declared⟩

/-- States stay alike at the start of a body, where no variable has been declared. -/
theorem undeclared (h : s.Alike s') :
    State.Alike { s with declared := [] } { s' with declared := [] } :=
  ⟨h.tables, h.noPrint, rfl⟩

end State.Alike

/-- Whether two states are alike after each of them has grown from an earlier one. -/
structure Advance (s s' t t' : State) : Prop where
  left : s.tables.Extends t.tables
  right : s'.tables.Extends t'.tables
  alike : t.Alike t'

/-- Whether two steps of compilation that both succeed lead to states that are alike and to results
that are related in the tables of these states. -/
def Lockstep {α : Type} (x x' : M α) (s s' : State) (R : α → Tables → α → Tables → Prop) : Prop :=
  ∀ a t a' t', x s = .ok (a, t) → x' s' = .ok (a', t') →
    Advance s s' t t' ∧ R a t.tables a' t'.tables

section

variable {α β : Type} {x x' : M α} {s s' t t' : State} {Q R : α → Tables → α → Tables → Prop}

/-- States that are alike may stay where they are. -/
theorem Advance.refl (h : s.Alike s') : Advance s s' s s' := ⟨.refl _, .refl _, h⟩

/-- States that advance twice have advanced. -/
theorem Advance.trans {u u' : State} (h : Advance s s' t t') (h' : Advance t t' u u') :
    Advance s s' u u' :=
  ⟨h.left.trans h'.left, h.right.trans h'.right, h'.alike⟩

/-- Steps that do nothing are in lockstep. -/
theorem lockstep_pure {a a' : α} (h : s.Alike s') (hR : R a s.tables a' s'.tables) :
    Lockstep (pure a) (pure a') s s' R := by
  intro b t b' t' hrun hrun'
  cases hrun
  cases hrun'
  exact ⟨.refl h, hR⟩

/-- Steps go on in lockstep after steps in lockstep. -/
theorem Lockstep.bind {g g' : α → M β} {R : β → Tables → β → Tables → Prop}
    (h : Lockstep x x' s s' Q)
    (hg : ∀ a t a' t', x s = .ok (a, t) → x' s' = .ok (a', t') → Advance s s' t t' →
      Q a t.tables a' t'.tables → Lockstep (g a) (g' a') t t' R) :
    Lockstep (x >>= g) (x' >>= g') s s' R := by
  intro b u b' u' hrun hrun'
  obtain ⟨a, t, hx, hga⟩ := bind_eq_ok.mp hrun
  obtain ⟨a', t', hx', hga'⟩ := bind_eq_ok.mp hrun'
  obtain ⟨hadvance, hQ⟩ := h a t a' t' hx hx'
  obtain ⟨hadvance', hR⟩ := hg a t a' t' hx hx' hadvance hQ b u b' u' hga hga'
  exact ⟨hadvance.trans hadvance', hR⟩

/-- Steps that look at their states are in lockstep if what follows is. -/
theorem lockstep_get_bind {f f' : State → M α} (h : Lockstep (f s) (f' s') s s' R) :
    Lockstep (get >>= f) (get >>= f') s s' R := h

/-- The rest of the state can be changed in between. -/
theorem lockstep_modify_bind {g g' : State → State} {f f' : PUnit → M α}
    (hleft : (g s).tables = s.tables) (hright : (g' s').tables = s'.tables)
    (h : Lockstep (f ⟨⟩) (f' ⟨⟩) (g s) (g' s') R) :
    Lockstep (modify g >>= f) (modify g' >>= f') s s' R := by
  intro a t a' t' hrun hrun'
  obtain ⟨hadvance, hR⟩ := h a t a' t' hrun hrun'
  exact ⟨⟨hleft ▸ hadvance.left, hright ▸ hadvance.right, hadvance.alike⟩, hR⟩

/-- Steps that change nothing in the tables are in lockstep if what follows is. -/
theorem lockstep_set_bind {u u' : State} {f f' : PUnit → M α} (hleft : u.tables = s.tables)
    (hright : u'.tables = s'.tables) (h : Lockstep (f ⟨⟩) (f' ⟨⟩) u u' R) :
    Lockstep (set u >>= f) (set u' >>= f') s s' R :=
  lockstep_modify_bind hleft hright h

/-- A step that fails is in lockstep with every other. -/
theorem lockstep_fail {c : Context} {pos : Pos} {e : CompileErrorKind} :
    Lockstep (fail c pos e) x' s s' R := by
  intro a t a' t' hrun
  cases hrun

/-- Every step is in lockstep with one that fails. -/
theorem lockstep_fail_right {c : Context} {pos : Pos} {e : CompileErrorKind} :
    Lockstep x (fail c pos e) s s' R := by
  intro a t a' t' _ hrun
  cases hrun

/-- What is decided after a step that succeeds. -/
theorem Decisions.after_eq {next : α → State → Decisions} {a : α} (h : x s = .ok (a, t)) :
    Decisions.after x s next = next a t := by
  rw [after, h]

end

/-! ### Adding entries to tables -/

section

variable {c c' : Context} {pos pos' : Pos} {table : String} {add : Tables → Option (Nat × Tables)}
  {s s' : State}

/-- An entry that is added changes nothing but the tables. -/
theorem addEntry_eq_ok {i : Nat} {t : State} (h : addEntry c pos table add s = .ok (i, t)) :
    ∃ u, add s.tables = some (i, u) ∧ t = { s with tables := u } := by
  obtain ⟨s₁, s₂, hget, hrest⟩ := bind_eq_ok.mp h
  cases hget
  cases hadd : add s.tables with
  | none =>
    rw [hadd] at hrest
    cases hrest
  | some e =>
    rw [hadd] at hrest
    cases hrest
    exact ⟨e.2, rfl, rfl⟩

/-- Entries are added in lockstep if the tables stay alike. -/
theorem lockstep_addEntry {R : Nat → Tables → Nat → Tables → Prop} (hs : s.Alike s')
    (h : ∀ i u i' u', add s.tables = some (i, u) → add s'.tables = some (i', u') →
      s.tables.Extends u ∧ s'.tables.Extends u' ∧ u.Alike u' ∧ R i u i' u') :
    Lockstep (addEntry c pos table add) (addEntry c' pos' table add) s s' R := by
  intro i t i' t' hrun hrun'
  obtain ⟨u, hadd, rfl⟩ := addEntry_eq_ok hrun
  obtain ⟨u', hadd', rfl⟩ := addEntry_eq_ok hrun'
  obtain ⟨hleft, hright, halike, hR⟩ := h i u i' u' hadd hadd'
  exact ⟨⟨hleft, hright, halike, hs.noPrint, hs.declared⟩, hR⟩

/-- A name has the same index on both sides. -/
theorem lockstep_intern (hs : s.Alike s') (str : String) :
    Lockstep (intern c pos str) (intern c' pos' str) s s' fun i _ i' _ => i = i' :=
  lockstep_addEntry hs fun _ _ _ _ hadd hadd' =>
    ⟨(Tables.addString_eq_some hadd).1, (Tables.addString_eq_some hadd').1,
      hs.tables.addString hadd hadd'⟩

/-- A function has the same index on both sides. -/
theorem lockstep_addFunc (hs : s.Alike s') (g : Function) :
    Lockstep (addEntry c pos table (·.addFunc g)) (addEntry c' pos' table (·.addFunc g)) s s'
      fun i _ i' _ => i = i' :=
  lockstep_addEntry hs fun _ _ _ _ hadd hadd' =>
    ⟨(Tables.addFunc_eq_some hadd).1, (Tables.addFunc_eq_some hadd').1, hs.tables.addFunc hadd hadd'⟩

/-- A value may have different indices, but it is an entry on both sides. -/
theorem lockstep_addValue (hs : s.Alike s') (v : Value) :
    Lockstep (addValue c pos v) (addValue c' pos' v) s s' fun i t i' t' =>
      t.values[i]? = some v ∧ t'.values[i']? = some v :=
  lockstep_addEntry hs fun _ _ _ _ hadd hadd' =>
    ⟨(Tables.addValue_eq_some hadd).1, (Tables.addValue_eq_some hadd').1,
      ((Tables.Alike.of_addValue hadd).symm.trans hs.tables).trans (Tables.Alike.of_addValue hadd'),
      (Tables.addValue_eq_some hadd).2.2, (Tables.addValue_eq_some hadd').2.2⟩

/-- A text that is added on both sides is found on both sides. -/
theorem lockstep_addChunk (hs : s.Alike s') (bytes : ByteArray) :
    Lockstep (addEntry c pos table (·.addChunk bytes)) (addEntry c' pos' table (·.addChunk bytes)) s s'
      fun i t i' t' => t.chunks[i]? = some bytes ∧ t'.chunks[i']? = some bytes :=
  lockstep_addEntry hs fun _ _ _ _ hadd hadd' =>
    ⟨(Tables.addChunk_eq_some hadd).1, (Tables.addChunk_eq_some hadd').1,
      ((Tables.Alike.of_addChunk hadd).symm.trans hs.tables).trans (Tables.Alike.of_addChunk hadd'),
      (Tables.addChunk_eq_some hadd).2.2, (Tables.addChunk_eq_some hadd').2.2⟩

end

end Compile
end Stencil
