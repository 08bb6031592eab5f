import Stencil.Proofs.Actions
import Stencil.Proofs.Registries
import Stencil.Proofs.Variables

/-!
# Resolved code

The code of pipelines refers to entries of the tables that it is compiled with, and to functions that
the registry has for their names. So it does the same in all programs whose tables grow from these.
Only an asset hook keeps an action from printing; pipelines that name none leave the rest of the
state of compilation alone.
-/

namespace Stencil

namespace Instr

/-- Whether an instruction can be part of a pipeline without asset hooks and refers to entries of the
tables, also by the name of a variable. -/
def Resolved (t : Tables) : Instr → Prop
  | field _ name | var name | setVar name _ => name < t.strings.size
  | string index => index < t.texts.size
  | func _ index => index < t.funcs.size
  | val index => index < t.values.size
  | dot => True
  | _ => False

variable {t u u' : Tables} {i : Instr}

/-- Resolved instructions are straight-line instructions. -/
theorem Resolved.isStraight (h : i.Resolved t) : i.isStraight := by
  cases i <;> first | rfl | exact h.elim

/-- A resolved instruction stays so when tables grow. -/
theorem Resolved.mono (h : i.Resolved t) (hextends : t.Extends u) : i.Resolved u := by
  cases i <;> first
    | exact Tables.lt_size_of_extends hextends.strings h
    | exact Tables.lt_size_of_extends hextends.texts h
    | exact Tables.lt_size_of_extends hextends.funcs h
    | exact Tables.lt_size_of_extends hextends.values h
    | exact h

end Instr

namespace Machine

variable {schema : Schema} {t u u' : Tables} {i : Instr} {code : List Instr}

/-- An index inside a table has the same entry in all tables that grow from it. -/
theorem getElem?_eq_of_extends {α : Type} {xs ys zs : Array α} {n : Nat} (hn : n < xs.size)
    (hys : ∀ (i : Nat) (x : α), xs[i]? = some x → ys[i]? = some x)
    (hzs : ∀ (i : Nat) (x : α), xs[i]? = some x → zs[i]? = some x) : ys[n]? = zs[n]? := by
  have hentry : xs[n]? = some xs[n] := Array.getElem?_eq_getElem hn
  rw [hys n _ hentry, hzs n _ hentry]

/-- An instruction does the same in all tables that grow from those with its entries. -/
theorem step_of_resolved (hi : i.Resolved t) (hu : t.Extends u) (hu' : t.Extends u') (m : Machine) :
    m.step schema u i = m.step schema u' i := by
  cases i with
  | field argc name =>
    simp only [step, getElem?_eq_of_extends hi hu.strings hu'.strings]
  | string index => simp only [step, getElem?_eq_of_extends hi hu.texts hu'.texts]
  | func argc index => simp only [step, getElem?_eq_of_extends hi hu.funcs hu'.funcs]
  | val index => simp only [step, getElem?_eq_of_extends hi hu.values hu'.values]
  | var name => simp only [step, unbound, getElem?_eq_of_extends hi hu.strings hu'.strings]
  | setVar name assign =>
    simp only [step, unbound, getElem?_eq_of_extends hi hu.strings hu'.strings]
  | dot => rfl
  | _ => exact hi.elim

/-- Resolved code does the same in all tables that grow from its own. -/
theorem steps_of_resolved (hcode : ∀ i ∈ code, i.Resolved t) (hu : t.Extends u) (hu' : t.Extends u')
    (m : Machine) : m.steps schema u code = m.steps schema u' code := by
  induction code generalizing m with
  | nil => rfl
  | cons i code ih =>
    rw [List.forall_mem_cons] at hcode
    rw [steps, steps, step_of_resolved hcode.1 hu hu']
    cases m.step schema u' i with
    | next m' | jump k m' => exact ih hcode.2 m'
    | fail e m' => rfl

end Machine

/-! ### Names in pipelines -/

mutual

/-- The names of functions in an operand. -/
def Operand.names : Operand → List String
  | .ident _ name => [name]
  | .chain _ inner _ => inner.names
  | .paren p => p.names
  | _ => []

/-- The names of functions in operands. -/
def Operand.allNames : List Operand → List String
  | [] => []
  | a :: rest => a.names ++ Operand.allNames rest

/-- The names of functions in a command. -/
def Command.names : Command → List String
  | .mk _ operands => Operand.allNames operands

/-- The names of functions in commands. -/
def Command.allNames : List Command → List String
  | [] => []
  | cmd :: rest => cmd.names ++ Command.allNames rest

/-- The names of functions in a pipeline. -/
def Pipeline.names : Pipeline → List String
  | .mk _ _ _ commands => Command.allNames commands

end

/-- The names in two chains of commands are those of both. -/
theorem Command.allNames_append (first rest : List Command) :
    Command.allNames (first ++ rest) = Command.allNames first ++ Command.allNames rest := by
  induction first with
  | nil => rfl
  | cons cmd first ih => rw [List.cons_append, allNames, allNames, ih, List.append_assoc]

namespace Compile

/-- Whether none of the names is that of an asset hook. -/
def NoHooks (names : List String) : Prop := ∀ name ∈ names, isHook name = false

instance (names : List String) : Decidable (NoHooks names) :=
  inferInstanceAs (Decidable (∀ name ∈ names, isHook name = false))

/-- Whether one of the names is that of an asset hook. -/
def anyHook (names : List String) : Bool := names.any isHook

/-- There is a hook among the names of two parts if there is one in either. -/
theorem anyHook_append (first rest : List String) :
    anyHook (first ++ rest) = (anyHook first || anyHook rest) := List.any_append

/-- Without hooks there is none. -/
theorem NoHooks.anyHook_eq_false {names : List String} (h : NoHooks names) : anyHook names = false :=
  List.any_eq_false.mpr fun name hname => by simp [h name hname]

variable {c : Context} {pos : Pos} {s s' s'' : State} {f f' f'' g body : Fragment} {hooked hooked' : Bool}

/-- Whether the functions in the tables are those of the registry, each under its own name. -/
structure State.Linked (c : Context) (s : State) : Prop where
  keyed : c.registry.IsKeyed
  registered : s.tables.Registered c.registry

/-- Whether the functions in the tables are those of the registry, each under its own name, and no
asset hook has been met. -/
structure State.Ready (c : Context) (s : State) : Prop where
  keyed : c.registry.IsKeyed
  registered : s.tables.Registered c.registry
  noPrint : s.noPrint = false

/-- A state that is ready is linked. -/
theorem State.Ready.linked (h : s.Ready c) : s.Linked c := ⟨h.keyed, h.registered⟩

/-- A state that is alike a ready one is ready. -/
theorem State.Ready.of_alike (h : s.Ready c) (halike : s.Alike s') : s'.Ready c where
  keyed := h.keyed
  registered := h.registered.of_alike halike.tables
  noPrint := halike.noPrint ▸ h.noPrint

/-- What a step of compilation does to the state that adds to the tables and meets no asset hook. -/
structure StaysReady (c : Context) (s s' : State) : Prop where
  extends_ : s.tables.Extends s'.tables
  ready : s.Ready c → s'.Ready c

/-- Nothing that is done leaves a state ready. -/
theorem StaysReady.refl (c : Context) (s : State) : StaysReady c s s := ⟨.refl _, id⟩

/-- What leaves a state ready twice does so together. -/
theorem StaysReady.trans (h : StaysReady c s s') (h' : StaysReady c s' s'') : StaysReady c s s'' where
  extends_ := h.extends_.trans h'.extends_
  ready hs := h'.ready (h.ready hs)

/-- The declared variables do not matter to whether a state is ready. -/
theorem StaysReady.declared (h : StaysReady c s s') {declared : List Nat} :
    StaysReady c s { s' with declared := declared } where
  extends_ := h.extends_
  ready hs := ⟨hs.keyed, (h.ready hs).registered, (h.ready hs).noPrint⟩

/-- What a step of compilation does to the state that adds to the tables. An asset hook that is met
keeps the next action from printing, so whether the step leaves one behind depends on whether there has
been one before. -/
structure Passes (c : Context) (pending : Bool → Bool) (s s' : State) : Prop where
  extends_ : s.tables.Extends s'.tables
  linked : s.Linked c → s'.Linked c
  noPrint : s'.noPrint = pending s.noPrint

namespace Passes

variable {pending pending' : Bool → Bool}

/-- Nothing that is done passes everything on. -/
theorem refl (c : Context) (s : State) : Passes c id s s := ⟨.refl _, id, rfl⟩

/-- What is passed on twice is passed on. -/
theorem trans (h : Passes c pending s s') (h' : Passes c pending' s' s'') :
    Passes c (pending' ∘ pending) s s'' where
  extends_ := h.extends_.trans h'.extends_
  linked hs := h'.linked (h.linked hs)
  noPrint := by rw [h'.noPrint, h.noPrint, Function.comp_apply]

/-- Variables that are declared have nothing to do with asset hooks. -/
theorem declared (h : Passes c pending s s') {declared : List Nat} :
    Passes c pending s { s' with declared := declared } :=
  ⟨h.extends_, fun hs => ⟨hs.keyed, (h.linked hs).registered⟩, h.noPrint⟩

/-- Without an asset hook a state stays ready. -/
theorem stays (h : Passes c pending s s') (hpending : pending false = false) : StaysReady c s s' where
  extends_ := h.extends_
  ready hs := ⟨hs.keyed, (h.linked hs.linked).registered, by rw [h.noPrint, hs.noPrint, hpending]⟩

end Passes

/-- Whether resolved code has been added to a fragment. -/
def AddsResolved (c : Context) (f : Fragment) (s : State) (f' : Fragment) (s' : State) : Prop :=
  ∃ code, f'.instrs = f.instrs ++ code ∧ StaysReady c s s' ∧
    (s.Ready c → ∀ i ∈ code, i.Resolved s'.tables)

/-- Resolved code leaves a state ready. -/
theorem AddsResolved.stays (h : AddsResolved c f s f' s') : StaysReady c s s' := by
  obtain ⟨code, -, hstays, -⟩ := h
  exact hstays

/-- Whether code has been added to a fragment that is resolved if no asset hook has been met. -/
def AddsHooked (c : Context) (hooked : Bool) (f : Fragment) (s : State) (f' : Fragment) (s' : State) :
    Prop :=
  ∃ code, f'.instrs = f.instrs ++ code ∧ Passes c (· || hooked) s s' ∧
    (hooked = false → s.Linked c → ∀ i ∈ code, i.Resolved s'.tables)

namespace AddsHooked

/-- Code that may call hooks passes on whether one is pending. -/
theorem passes (h : AddsHooked c hooked f s f' s') : Passes c (· || hooked) s s' := by
  obtain ⟨code, -, hpasses, -⟩ := h
  exact hpasses

/-- Without an asset hook none is pending that has not been pending before. -/
theorem unhooked (h : AddsHooked c false f s f' s') : Passes c id s s' where
  extends_ := h.passes.extends_
  linked := h.passes.linked
  noPrint := by rw [h.passes.noPrint, Bool.or_false, id]

/-- Code that calls no hook is resolved. -/
theorem resolved (h : AddsHooked c false f s f' s') : AddsResolved c f s f' s' := by
  obtain ⟨code, hcode, hpasses, hresolved⟩ := h
  exact ⟨code, hcode, hpasses.stays rfl, fun hs => hresolved rfl hs.linked⟩

/-- Code is added after the tables have got its entries. -/
theorem of_code {code : List Instr} (h : Passes c id s s') (hcode : f'.instrs = f.instrs ++ code)
    (hresolved : s.Linked c → ∀ i ∈ code, i.Resolved s'.tables) : AddsHooked c false f s f' s' :=
  ⟨code, hcode, ⟨h.extends_, h.linked, by rw [h.noPrint, Bool.or_false, id]⟩, fun _ => hresolved⟩

/-- Nothing that is added calls no hook. -/
theorem refl (c : Context) (f : Fragment) (s : State) : AddsHooked c false f s f s :=
  of_code (.refl c s) (List.append_nil _).symm fun _ _ hi => nomatch hi

/-- An instruction is added after the tables have got its entry. -/
theorem push (h : Passes c id s s') (f : Fragment) (i : Instr) (hi : s.Linked c → i.Resolved s'.tables) :
    AddsHooked c false f s (f.push i) s' :=
  of_code h (Fragment.instrs_push f i) fun hs => List.forall_mem_singleton.mpr (hi hs)

/-- Codes that may call hooks call one together if either of them does. -/
theorem trans (h : AddsHooked c hooked f s f' s') (h' : AddsHooked c hooked' f' s' f'' s'') :
    AddsHooked c (hooked || hooked') f s f'' s'' := by
  obtain ⟨code, hcode, hpasses, hresolved⟩ := h
  obtain ⟨rest, hrest, hpasses', hresolved'⟩ := h'
  refine ⟨code ++ rest, by rw [hrest, hcode, List.append_assoc], ?_, fun hnone hs => ?_⟩
  · obtain ⟨hextends, hlinked, hprint⟩ := hpasses.trans hpasses'
    exact ⟨hextends, hlinked, hprint.trans (Bool.or_assoc _ _ _)⟩
  · obtain ⟨hfirst, hsecond⟩ := Bool.or_eq_false_iff.mp hnone
    exact List.forall_mem_append.mpr ⟨fun i hi => (hresolved hfirst hs i hi).mono hpasses'.extends_,
      hresolved' hsecond (hpasses.linked hs)⟩

/-- Code without asset hooks is added. -/
theorem andThen (h : AddsHooked c hooked f s f' s') (h' : AddsHooked c false f' s' f'' s'') :
    AddsHooked c hooked f s f'' s'' := Bool.or_false hooked ▸ h.trans h'

/-- Code compiled on its own is added as a whole. -/
theorem append (h : AddsHooked c hooked .empty s g s') (f : Fragment) :
    AddsHooked c hooked f s (f.append g) s' := by
  obtain ⟨code, hcode, hadds⟩ := h
  have hcode : g.instrs = code := hcode
  exact ⟨code, by rw [Fragment.instrs_append, hcode], hadds⟩

end AddsHooked

/-! ### Adding entries to tables -/

/-- An entry that is added passes everything on, and leaves the functions registered. -/
theorem yields_linked_addEntry {table : String} {add : Tables → Option (Nat × Tables)}
    (Q : Nat → Tables → Prop) (h : ∀ i t, add s.tables = some (i, t) → s.tables.Extends t ∧
      (s.Linked c → t.Registered c.registry ∧ Q i t)) :
    Yields (addEntry c pos table add) s fun i s' =>
      Passes c id s s' ∧ (s.Linked c → Q i s'.tables) := by
  intro i s' hrun
  obtain ⟨t, hadd, rfl⟩ := addEntry_eq_ok hrun
  obtain ⟨hextends, hregistered⟩ := h i t hadd
  exact ⟨⟨hextends, fun hs => ⟨hs.keyed, (hregistered hs).1⟩, rfl⟩, fun hs => (hregistered hs).2⟩

/-- An entry that is added leaves a state ready. -/
theorem yields_ready_addEntry {table : String} {add : Tables → Option (Nat × Tables)}
    (Q : Nat → Tables → Prop) (h : ∀ i t, add s.tables = some (i, t) → s.tables.Extends t ∧
      (s.Linked c → t.Registered c.registry ∧ Q i t)) :
    Yields (addEntry c pos table add) s fun i s' =>
      StaysReady c s s' ∧ (s.Ready c → Q i s'.tables) :=
  (yields_linked_addEntry Q h).mono fun _ _ hi => ⟨hi.1.stays rfl, fun hs => hi.2 hs.linked⟩

/-- A name that is interned has an index inside the table. -/
theorem yields_linked_intern (str : String) :
    Yields (intern c pos str) s fun i s' =>
      Passes c id s s' ∧ (s.Linked c → i < s'.tables.strings.size) := by
  refine yields_linked_addEntry (fun i t => i < t.strings.size) fun i t hadd => ?_
  obtain ⟨hextends, hsound, hentry⟩ := Tables.addString_eq_some hadd
  refine ⟨hextends, fun hs => ⟨hs.registered.addString hadd, ?_⟩⟩
  exact Tables.lt_size_of_entry (hentry (hsound hs.registered.sound))

/-- Pushing a value calls no hook. -/
theorem yields_hooked_pushValue (f : Fragment) (v : Value) :
    Yields (pushValue c pos f v) s (AddsHooked c false f s) := by
  have hadd : Yields (addValue c pos v) s fun i s' =>
      Passes c id s s' ∧ (s.Linked c → i < s'.tables.values.size) :=
    yields_linked_addEntry (fun i t => i < t.values.size) fun i t hadd => by
      obtain ⟨hextends, -, hentry⟩ := Tables.addValue_eq_some hadd
      exact ⟨hextends, fun hs =>
        ⟨hs.registered.of_alike (.of_addValue hadd), Tables.lt_size_of_entry hentry⟩⟩
  exact .bind hadd fun i s' hi => yields_pure (.push hi.1 f (.val i) hi.2)

/-- Writing bytes passes everything on. -/
theorem yields_passes_pushBytes (f : Fragment) (bytes : ByteArray) :
    Yields (pushBytes c pos f bytes) s fun g s' =>
      (∃ i, g.instrs = f.instrs ++ [.wb i]) ∧ Passes c id s s' := by
  refine .bind (yields_linked_addEntry (fun _ _ => True) fun i t hadd => ?_) fun i s' hi =>
    yields_pure ⟨⟨i, Fragment.instrs_push f (.wb i)⟩, hi.1⟩
  obtain ⟨hextends, -, -⟩ := Tables.addChunk_eq_some hadd
  exact ⟨hextends, fun hs => ⟨hs.registered.of_alike (.of_addChunk hadd), trivial⟩⟩

/-- The index of a function of the registry is that of an entry with the function. -/
theorem yields_linked_addFunc {function : Function} {name : String}
    (hfunction : c.registry.get? name = some function) :
    Yields (addEntry c pos "function" (·.addFunc function)) s fun i s' =>
      Passes c id s s' ∧ (s.Linked c → s'.tables.funcs[i]? = some function) := by
  refine yields_linked_addEntry (fun i t => t.funcs[i]? = some function) fun i t hadd =>
    ⟨(Tables.addFunc_eq_some hadd).1, fun hs => ?_⟩
  have hname : c.registry.get? function.name = some function := by
    rw [hs.keyed name function hfunction, hfunction]
  exact hs.registered.addFunc hname hadd

/-- A function that is registered is found in the tables once it is added. -/
theorem yields_ready_addFunc {function : Function} {name : String}
    (hfunction : c.registry.get? name = some function) :
    Yields (addEntry c pos "function" (·.addFunc function)) s fun i s' =>
      StaysReady c s s' ∧ (s.Ready c → s'.tables.funcs[i]? = some function) :=
  (yields_linked_addFunc hfunction).mono fun _ _ hi => ⟨hi.1.stays rfl, fun hs => hi.2 hs.linked⟩

/-! ### Pipelines -/

/-- Looking up a path calls no hook. -/
theorem yields_hooked_fields (argc : Nat) (path : List String) :
    Yields (fields c pos argc f path) s (AddsHooked c false f s) := by
  induction path generalizing f s with
  | nil => exact yields_pure (.refl c f s)
  | cons name rest ih =>
    refine .bind (yields_linked_intern name) fun index s₁ hindex => ?_
    exact ih.mono fun g s₂ hrest => (AddsHooked.push hindex.1 f (.field _ index) hindex.2).andThen hrest

/-- The fields of what has been added are looked up. -/
theorem AddsHooked.fields (h : AddsHooked c hooked f s f' s') (argc : Nat) (path : List String)
    (pos' : Pos) :
    Yields (do return (← fields c pos argc f' path).mark pos') s' (AddsHooked c hooked f s) :=
  .bind (yields_hooked_fields argc path) fun _ _ hfields => yields_pure (h.andThen hfields)

/-- An identifier calls a hook exactly if it is the name of one. -/
theorem yields_hooked_identifier (argc : Nat) (name : String) :
    Yields (identifier c pos argc f name) s (AddsHooked c (isHook name) f s) := by
  cases hname : isHook name with
  | true =>
    obtain ⟨bytes, hbytes⟩ := exists_assetBytes? c.set hname
    unfold identifier
    rw [hbytes]
    have hhook {g : Fragment} {s₁ : State} {code : List Instr} (hpasses : Passes c id s s₁)
        (hcode : g.instrs = f.instrs ++ code) :
        Yields (do modify ({ · with noPrint := true }); return g) s₁ (AddsHooked c true f s) :=
      yields_modify_bind (yields_pure ⟨code, hcode,
        ⟨hpasses.extends_, fun hs => ⟨hs.keyed, (hpasses.linked hs).registered⟩, (Bool.or_true _).symm⟩,
        nofun⟩)
    simp only
    split
    · exact hhook (.refl c s) (List.append_nil _).symm
    · refine .bind (yields_passes_pushBytes f bytes) fun g s₁ hg => ?_
      obtain ⟨⟨i, hcode⟩, hpasses⟩ := hg
      exact hhook hpasses hcode
  | false =>
    unfold identifier
    rw [assetBytes?_eq_none hname]
    refine yields_get_bind ?_
    split
    · exact yields_pure (.refl c f s)
    · split
      · exact yields_fail
      · next function hfunction =>
        refine .bind (yields_linked_addFunc hfunction) fun index s₁ hindex => yields_pure ?_
        exact .push hindex.1 f (.func argc index) fun hs => Tables.lt_size_of_entry (hindex.2 hs)

/-- Binding variables calls no hook. -/
theorem yields_hooked_bindAll (assign : Bool) (decl : List Variable) :
    Yields (bindAll c assign f decl) s (AddsHooked c false f s) := by
  induction decl generalizing f s with
  | nil => exact yields_pure (.refl c f s)
  | cons v rest ih =>
    refine .bind (yields_linked_intern v.name) fun name s₁ hname => ?_
    have hset (declared : List Nat) :
        AddsHooked c false f s (f.push (.setVar name assign)) { s₁ with declared := declared } :=
      .push hname.1.declared f (.setVar name assign) hname.2
    cases assign with
    | true => exact ih.mono fun g s₂ hrest => (hset s₁.declared).andThen hrest
    | false => exact yields_modify_bind (ih.mono fun g s₂ hrest => (hset _).andThen hrest)

/-- Pushing values calls no hook. -/
theorem yields_hooked_pushValues (values : List Value) :
    Yields (pushValues c pos f values) s (AddsHooked c false f s) := by
  induction values generalizing f s with
  | nil => exact yields_pure (.refl c f s)
  | cons v values ih =>
    refine .bind (yields_hooked_pushValue f v) fun g s₁ hg => ?_
    exact ih.mono fun g' s₂ hrest => hg.andThen hrest

/-- Folding code keeps it or replaces it by the values it has been evaluated to. -/
theorem yields_hooked_fold {s₀ : State} (hbody : AddsHooked c hooked .empty s₀ body s) :
    Yields (fold c pos body) s (AddsHooked c hooked .empty s₀) := by
  refine yields_get_bind ?_
  simp only
  split
  · split
    · refine (yields_hooked_pushValues _).mono fun g s' hvalues => ?_
      obtain ⟨-, -, hpasses, -⟩ := hbody
      obtain ⟨code, hcode, hpasses', hresolved⟩ := hvalues
      refine ⟨code, hcode, ?_, fun _ hs => hresolved rfl (hpasses.linked hs)⟩
      obtain ⟨hextends, hlinked, hprint⟩ := hpasses.trans hpasses'
      exact ⟨hextends, hlinked, hprint.trans (Bool.or_false _)⟩
    · exact yields_pure hbody
  · exact yields_pure hbody

/-- Folding and binding add no call of a hook. -/
theorem yields_hooked_value {s₀ : State} (binds assign : Bool) (decl : List Variable)
    (hbody : AddsHooked c hooked .empty s₀ body s) :
    Yields (do
        let body ← fold c pos body
        let body ← if binds then bindAll c assign body decl else pure body
        return body.mark pos) s (AddsHooked c hooked .empty s₀) := by
  refine .bind (yields_hooked_fold hbody) fun g s₁ hg => ?_
  cases binds with
  | false => exact yields_pure hg
  | true =>
    exact .bind (yields_hooked_bindAll assign decl) fun g' s₂ hbind => yields_pure (hg.andThen hbind)

mutual

/-- An operand calls the hooks among its names. -/
theorem yields_hooked_operand (argc : Nat) : ∀ (a : Operand) (f : Fragment) (s : State),
    Yields (operand c argc f a) s (AddsHooked c (anyHook a.names) f s)
  | .bool pos b, f, s =>
    .bind (yields_hooked_pushValue f (.bool b)) fun _ _ hadds => yields_pure hadds
  | .number n, f, s => by
    unfold operand
    split
    · exact .bind (yields_hooked_pushValue f _) fun _ _ hadds => yields_pure hadds
    · exact yields_fail
  | .string pos str, f, s =>
    .bind (yields_linked_intern str) fun index _ hindex =>
      yields_pure (.push hindex.1 f (.string index) fun hs => by
        rw [Instr.Resolved, (hindex.1.linked hs).registered.sound.texts]
        exact hindex.2 hs)
  | .nil pos, f, s => .bind (yields_hooked_pushValue f .nil) fun _ _ hadds => yields_pure hadds
  | .dot pos, f, s => yields_pure (.push (.refl c s) f .dot fun _ => trivial)
  | .field pos path, f, s =>
    (AddsHooked.push (.refl c s) f .dot fun _ => trivial).fields argc path pos
  | .chain pos inner path, f, s =>
    .bind (yields_hooked_operand 0 inner f s) fun _ _ hinner => hinner.fields argc path pos
  | .var v, f, s =>
    .bind (yields_linked_intern v.name) fun name _ hname =>
      (AddsHooked.push hname.1 f (.var name) hname.2).fields argc v.fields v.pos
  | .ident pos name, f, s => by
    have hname : anyHook (Operand.ident pos name).names = isHook name := Bool.or_false _
    rw [hname]
    exact .bind (yields_hooked_identifier argc name) fun _ _ hadds => yields_pure hadds
  | .paren p, f, s => by
    refine .bind (yields_hooked_pipeline true p s) fun g s₁ hg => ?_
    have hadds : AddsHooked c (anyHook p.names) f s (f.append g) s₁ := hg.append f
    split
    · exact .bind (yields_linked_intern _) fun name s₂ hname =>
        yields_pure (hadds.andThen (.push hname.1 _ (.var name) hname.2))
    · exact yields_pure hadds

/-- Operands call the hooks among their names. -/
theorem yields_hooked_operands (argc : Nat) : ∀ (args : List Operand) (f : Fragment) (s : State),
    Yields (operands c argc f args) s (AddsHooked c (anyHook (Operand.allNames args)) f s)
  | [], f, s => yields_pure (.refl c f s)
  | a :: rest, f, s => by
    rw [Operand.allNames, anyHook_append, Bool.or_comm]
    refine .bind (yields_hooked_operands 0 rest f s) fun g s₁ hargs => ?_
    exact (yields_hooked_operand argc a g s₁).mono fun _ _ hhead => hargs.trans hhead

/-- A command calls the hooks among its names. -/
theorem yields_hooked_command (chained : Bool) : ∀ (cmd : Command) (f : Fragment) (s : State),
    Yields (command c chained f cmd) s (AddsHooked c (anyHook cmd.names) f s)
  | .mk pos args, f, s => by
    unfold command
    simp only
    split
    · exact .bind (yields_hooked_operands _ args f s) fun _ _ hadds => yields_pure hadds
    · exact yields_fail

/-- The commands of a chain call the hooks among their names. -/
theorem yields_hooked_commands (chained : Bool) : ∀ (cmds : List Command) (f : Fragment) (s : State),
    Yields (commands c chained f cmds) s (AddsHooked c (anyHook (Command.allNames cmds)) f s)
  | [], f, s => yields_pure (.refl c f s)
  | cmd :: rest, f, s => by
    rw [Command.allNames, anyHook_append]
    refine .bind (yields_hooked_command chained cmd f s) fun g s₁ hadds => ?_
    exact (yields_hooked_commands true rest g s₁).mono fun _ _ h => hadds.trans h

/-- A pipeline leaves an asset hook pending if it names one. Otherwise its code refers to entries of the
tables, and the functions that it adds are those of the registry. -/
theorem yields_hooked_pipeline (binds : Bool) : ∀ (pipe : Pipeline) (s : State),
    Yields (pipeline c binds pipe) s (AddsHooked c (anyHook pipe.names) .empty s)
  | .mk _ assign decl cmds, s =>
    .bind (yields_hooked_commands false cmds .empty s) fun _ _ hbody =>
      yields_hooked_value binds assign decl hbody

end

/-! ### Without asset hooks -/

/-- Operands without hooks are resolved. -/
theorem yields_ready_operands (argc : Nat) (args : List Operand) (f : Fragment) (s : State)
    (hnames : NoHooks (Operand.allNames args)) : Yields (operands c argc f args) s (AddsResolved c f s) :=
  (yields_hooked_operands argc args f s).mono fun _ _ h => (hnames.anyHook_eq_false ▸ h).resolved

/-- A command without hooks is resolved. -/
theorem yields_ready_command (chained : Bool) (cmd : Command) (f : Fragment) (s : State)
    (hnames : NoHooks cmd.names) : Yields (command c chained f cmd) s (AddsResolved c f s) :=
  (yields_hooked_command chained cmd f s).mono fun _ _ h => (hnames.anyHook_eq_false ▸ h).resolved

/-- A chain of commands without hooks is resolved. -/
theorem yields_ready_commands (chained : Bool) (cmds : List Command) (f : Fragment) (s : State)
    (hnames : NoHooks (Command.allNames cmds)) :
    Yields (commands c chained f cmds) s (AddsResolved c f s) :=
  (yields_hooked_commands chained cmds f s).mono fun _ _ h => (hnames.anyHook_eq_false ▸ h).resolved

end Compile
end Stencil
