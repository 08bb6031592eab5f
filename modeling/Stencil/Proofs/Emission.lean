import Stencil.Proofs.Growth
import Stencil.Proofs.Layout
import Stencil.Proofs.Straight

/-!
# Emission

What a step of compilation adds to a fragment and to the state. A step that succeeds is described by
a relation between the state before it, its result and the state after it; a step that fails must
not blame the code for a lack of balance.
-/

namespace Stencil

namespace Compile

/-- Whether a step of compilation ends as told unless it fails, and does not fail for a lack of
balance. -/
def Ensures {α : Type} (x : M α) (s : State) (Q : α → State → Prop) : Prop :=
  match x s with
  | .ok (a, s') => Q a s'
  | .error e => ∀ effect, e.kind ≠ .unbalanced effect

section

variable {α β : Type} {x : M α} {s : State} {Q R : α → State → Prop}

/-- A step that succeeds ends as told. -/
theorem Ensures.of_ok (h : Ensures x s Q) {a : α} {s' : State} (hrun : x s = .ok (a, s')) : Q a s' := by
  unfold Ensures at h
  rw [hrun] at h
  exact h

/-- A step that fails does not blame the code for a lack of balance. -/
theorem Ensures.of_error (h : Ensures x s Q) {e : CompileError} (hrun : x s = .error e)
    (effect : Int) : e.kind ≠ .unbalanced effect := by
  unfold Ensures at h
  rw [hrun] at h
  exact h effect

/-- What is told of the end of a step may be weakened. -/
theorem Ensures.mono (h : Ensures x s Q) (hQ : ∀ a s', Q a s' → R a s') : Ensures x s R := by
  unfold Ensures at h ⊢
  split at h
  · exact hQ _ _ h
  · exact h

/-- What a step ensures, together with its result. -/
theorem Ensures.eq (h : Ensures x s Q) : Ensures x s fun a s' => x s = .ok (a, s') ∧ Q a s' := by
  unfold Ensures at h ⊢
  split
  · next hrun =>
    rw [hrun] at h
    exact ⟨hrun, h⟩
  · next hrun =>
    rw [hrun] at h
    exact h

/-- What is told of a step may be used for the step after it. -/
theorem Ensures.bind {f : α → M β} {R : β → State → Prop} (h : Ensures x s Q)
    (hf : ∀ a s', Q a s' → Ensures (f a) s' R) : Ensures (x >>= f) s R := by
  unfold Ensures at h ⊢
  have hbind : (x >>= f) s = (x s).bind fun r => f r.1 r.2 := rfl
  rw [hbind]
  cases hx : x s with
  | error e =>
    rw [hx] at h
    exact h
  | ok r =>
    rw [hx] at h
    exact hf r.1 r.2 h

/-- Two steps succeed exactly if both of them do, one after the other. -/
theorem bind_eq_ok {x : M α} {g : α → M β} {r : β × State} :
    (x >>= g) s = .ok r ↔ ∃ a s₁, x s = .ok (a, s₁) ∧ g a s₁ = .ok r := by
  have hbind : (x >>= g) s = (x s).bind fun r => g r.1 r.2 := rfl
  rw [hbind]
  cases x s with
  | error e => exact ⟨nofun, fun ⟨_, _, h, _⟩ => nomatch h⟩
  | ok r₁ =>
    constructor
    · exact fun h => ⟨r₁.1, r₁.2, rfl, h⟩
    · rintro ⟨a, s₁, hx, hg⟩
      cases hx
      exact hg

/-- A step that does nothing ends where it has started. -/
theorem ensures_pure {a : α} (h : Q a s) : Ensures (pure a) s Q := h

/-- A step that looks at the state is told of at that state. -/
theorem ensures_get_bind {f : State → M β} {R : β → State → Prop} (h : Ensures (f s) s R) :
    Ensures (get >>= f) s R := h

/-- A step that replaces the state is told of at the new one. -/
theorem ensures_set_bind {s' : State} {f : PUnit → M β} {R : β → State → Prop}
    (h : Ensures (f ⟨⟩) s' R) : Ensures (set s' >>= f) s R := h

/-- A step that changes the state is told of at the changed one. -/
theorem ensures_modify_bind {g : State → State} {f : PUnit → M β} {R : β → State → Prop}
    (h : Ensures (f ⟨⟩) (g s) R) : Ensures (modify g >>= f) s R := h

/-- A step that fails for another reason than balance ensures everything. -/
theorem ensures_fail {c : Context} {pos : Pos} {kind : CompileErrorKind}
    (h : ∀ effect, kind ≠ .unbalanced effect) : Ensures (fail c pos kind) s Q := h

end

/-- What a step does to the state that adds to the tables and nothing else. -/
structure Grows (s s' : State) : Prop where
  extends_ : s.tables.Extends s'.tables
  sound : s.tables.Sound → s'.tables.Sound
  noPrint : s'.noPrint = s.noPrint
  declared : s'.declared = s.declared

/-- What compiling code does to the state. -/
structure Emits (s s' : State) (code : List Instr) : Prop where
  extends_ : s.tables.Extends s'.tables
  sound : s.tables.Sound → s'.tables.Sound
  straight : Straight code
  valid : s.tables.Sound → ∀ i ∈ code, i.Valid s'.tables
  declared : s'.declared = declaredBy code ++ s.declared

/-- Whether code has been added to a fragment that, if it is well formed, finds the values it may
take when there are `before` of them, and then leaves at least `after`. -/
def Adds (f : Fragment) (s : State) (wf : Prop) (before after : Nat) (f' : Fragment) (s' : State) :
    Prop :=
  ∃ code, f'.instrs = f.instrs ++ code ∧ Emits s s' code ∧
    (wf → s.noPrint = false → s'.noPrint = false ∧ Leaves code before after)

end Compile

/-- An instruction stays valid when tables grow. -/
theorem Instr.Valid.mono {t t' : Tables} (h : t.Extends t') {i : Instr} (hi : i.Valid t) :
    i.Valid t' := by
  cases i <;> first
    | trivial
    | exact Tables.lt_size_of_extends h.strings hi
    | exact Tables.lt_size_of_extends h.texts hi
    | exact Tables.lt_size_of_extends h.values hi
    | exact Tables.lt_size_of_extends h.chunks hi
    | exact Tables.lt_size_of_extends h.funcs hi

namespace Compile

variable {s s' s'' : State} {code rest : List Instr}

/-- Nothing has to grow. -/
theorem Grows.refl (s : State) : Grows s s := ⟨.refl _, id, rfl, rfl⟩

/-- What grows twice has grown. -/
theorem Grows.trans (h : Grows s s') (h' : Grows s' s'') : Grows s s'' where
  extends_ := h.extends_.trans h'.extends_
  sound hs := h'.sound (h.sound hs)
  noPrint := h'.noPrint.trans h.noPrint
  declared := h'.declared.trans h.declared

/-- No code needs no step. -/
theorem Emits.refl (s : State) : Emits s s [] :=
  ⟨.refl _, id, straight_nil, fun _ _ hi => (nomatch hi), rfl⟩

/-- Code that is emitted in two steps is emitted. -/
theorem Emits.trans (h : Emits s s' code) (h' : Emits s' s'' rest) : Emits s s'' (code ++ rest) where
  extends_ := h.extends_.trans h'.extends_
  sound hs := h'.sound (h.sound hs)
  straight := h.straight.append h'.straight
  valid hs i hi := by
    rcases List.mem_append.mp hi with hi | hi
    · exact (h.valid hs i hi).mono h'.extends_
    · exact h'.valid (h.sound hs) i hi
  declared := by rw [h'.declared, h.declared, declaredBy_append, List.append_assoc]

/-- What only grows emits no code. -/
theorem Grows.emits (h : Grows s s') : Emits s s' [] :=
  ⟨h.extends_, h.sound, straight_nil, fun _ _ hi => (nomatch hi), h.declared⟩

/-- Whether the action prints does not matter to what has been emitted. -/
theorem Emits.noPrint (h : Emits s s' code) {b : Bool} : Emits s { s' with noPrint := b } code :=
  ⟨h.extends_, h.sound, h.straight, h.valid, h.declared⟩

/-- A straight-line instruction that declares nothing can be emitted by itself. -/
theorem emits_singleton {i : Instr} (hstraight : i.isStraight) (hvalid : s.tables.Sound → i.Valid s.tables)
    (hdeclares : i.declares = []) : Emits s s [i] where
  extends_ := .refl _
  sound := id
  straight := straight_singleton hstraight
  valid hs j hj := by
    rw [List.mem_singleton.mp hj]
    exact hvalid hs
  declared := by simp [declaredBy, hdeclares]

/-! ### Adding code -/

section

variable {f f' f'' : Fragment} {wf wf' : Prop} {before between after : Nat}

/-- Nothing that is added leaves as many values as before. -/
theorem adds_refl (hafter : wf → after ≤ before) : Adds f s wf before after f s :=
  ⟨[], by simp, .refl s, fun hwf hprint => ⟨hprint, (leaves_nil before).weaken (hafter hwf)⟩⟩

/-- What is added in two steps is added. -/
theorem Adds.trans (h : Adds f s wf before between f' s') (h' : Adds f' s' wf between after f'' s'') :
    Adds f s wf before after f'' s'' := by
  obtain ⟨code, hcode, hemits, hleaves⟩ := h
  obtain ⟨rest, hrest, hemits', hleaves'⟩ := h'
  refine ⟨code ++ rest, by rw [hrest, hcode, List.append_assoc], hemits.trans hemits', ?_⟩
  intro hwf hprint
  obtain ⟨hprint', hfirst⟩ := hleaves hwf hprint
  obtain ⟨hprint'', hsecond⟩ := hleaves' hwf hprint'
  exact ⟨hprint'', hfirst.append hsecond⟩

/-- What is added leaves as much on top of more values. -/
theorem Adds.mono {before' after' : Nat} (h : Adds f s wf before after f' s') (hwf : wf' → wf)
    (hbefore : wf' → before ≤ before' ∧ after' + before ≤ after + before') :
    Adds f s wf' before' after' f' s' := by
  obtain ⟨code, hcode, hemits, hleaves⟩ := h
  refine ⟨code, hcode, hemits, fun hwf' hprint => ?_⟩
  obtain ⟨hprint', hleaves⟩ := hleaves (hwf hwf') hprint
  exact ⟨hprint', hleaves.mono (hbefore hwf').1 (hbefore hwf').2⟩

/-- A stronger notion of well-formedness may take the place of the given one. -/
theorem Adds.imp (h : Adds f s wf before after f' s') (hwf : wf' → wf) :
    Adds f s wf' before after f' s' :=
  h.mono hwf fun _ => ⟨Nat.le_refl _, Nat.le_refl _⟩

/-- Code stays added when only the tables grow. -/
theorem Adds.grows (h : Adds f s wf before after f' s') (hgrows : Grows s' s'') :
    Adds f s wf before after f' s'' := by
  refine h.trans ⟨[], by simp, hgrows.emits, fun _ hprint => ⟨?_, leaves_nil after⟩⟩
  rw [hgrows.noPrint, hprint]

/-- One instruction is added at the end. -/
theorem Adds.push (h : Adds f s wf before after f' s') {i : Instr} (hstraight : i.isStraight)
    (hvalid : s'.tables.Sound → i.Valid s'.tables) (hdeclares : i.declares = [])
    (htakes : wf → i.takes ≤ after) :
    Adds f s wf before (after - i.takes + i.gives) (f'.push i) s' := by
  refine h.trans ⟨[i], Fragment.instrs_push f' i, emits_singleton hstraight hvalid hdeclares, ?_⟩
  intro hwf hprint
  have htakes := htakes hwf
  exact ⟨hprint, leaves_singleton.mono htakes (by omega)⟩

/-- Code compiled on its own is added as a whole. -/
theorem Adds.append {g : Fragment} (h : Adds .empty s wf before after g s') (f : Fragment) :
    Adds f s wf before after (f.append g) s' := by
  obtain ⟨code, hcode, hemits, hleaves⟩ := h
  refine ⟨code, ?_, hemits, hleaves⟩
  rw [Fragment.instrs_append, hcode]
  rfl

end

/-! ### Adding entries to tables -/

section

variable {c : Context} {pos : Pos} {table : String} {add : Tables → Option (Nat × Tables)}

/-- An entry that fits into its table is added, and one that does not fit is reported. -/
theorem ensures_addEntry {Q : Nat → State → Prop}
    (h : ∀ i t, add s.tables = some (i, t) → Q i { s with tables := t }) :
    Ensures (addEntry c pos table add) s Q := by
  apply ensures_get_bind
  split
  · next i t hadd => exact ensures_set_bind (ensures_pure (h i t hadd))
  · exact ensures_fail fun _ => nofun

/-- The index of a string is that of an entry with the string. -/
theorem ensures_intern (str : String) :
    Ensures (intern c pos str) s fun i s' =>
      Grows s s' ∧ (s'.tables.Sound → s'.tables.strings[i]? = some str) := by
  apply ensures_addEntry
  intro i t hadd
  obtain ⟨hextends, hsound, hentry⟩ := Tables.addString_eq_some hadd
  exact ⟨⟨hextends, hsound, rfl, rfl⟩, hentry⟩

/-- A value that is added has its entry. -/
theorem ensures_addValue (v : Value) :
    Ensures (addValue c pos v) s fun i s' => Grows s s' ∧ s'.tables.values[i]? = some v := by
  apply ensures_addEntry
  intro i t hadd
  obtain ⟨hextends, hsound, hentry⟩ := Tables.addValue_eq_some hadd
  exact ⟨⟨hextends, hsound, rfl, rfl⟩, hentry⟩

/-- A value is pushed by an instruction that refers to it. -/
theorem ensures_pushValue (f : Fragment) (v : Value) :
    Ensures (pushValue c pos f v) s fun g s' => ∃ index, g = f.push (.val index) ∧ Grows s s' ∧
      s'.tables.values[index]? = some v :=
  .bind (ensures_addValue v) fun index _ hindex => ensures_pure ⟨index, rfl, hindex⟩

/-- A text that is added has its entry. -/
theorem ensures_addChunk (bytes : ByteArray) :
    Ensures (addEntry c pos table (·.addChunk bytes)) s fun i s' =>
      Grows s s' ∧ s'.tables.chunks[i]? = some bytes := by
  apply ensures_addEntry
  intro i t hadd
  obtain ⟨hextends, hsound, hentry⟩ := Tables.addChunk_eq_some hadd
  exact ⟨⟨hextends, hsound, rfl, rfl⟩, hentry⟩

/-- Bytes are written by an instruction that refers to them. -/
theorem ensures_pushBytes (f : Fragment) (bytes : ByteArray) :
    Ensures (pushBytes c pos f bytes) s fun g s' => ∃ index, g = f.push (.wb index) ∧ Grows s s' ∧
      s'.tables.chunks[index]? = some bytes :=
  .bind (ensures_addChunk bytes) fun index _ hindex => ensures_pure ⟨index, rfl, hindex⟩

/-- A function that is added has its entry. -/
theorem ensures_addFunc (g : Function) :
    Ensures (addEntry c pos table (·.addFunc g)) s fun i s' =>
      Grows s s' ∧ (s'.tables.Sound → i < s'.tables.funcs.size) := by
  apply ensures_addEntry
  intro i t hadd
  obtain ⟨hextends, hsound, hentry⟩ := Tables.addFunc_eq_some hadd
  exact ⟨⟨hextends, hsound, rfl, rfl⟩, hentry⟩

end

end Compile
end Stencil
