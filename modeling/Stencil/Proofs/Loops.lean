import Stencil.Proofs.Scope

/-!
# Loops

What a range does once its pipeline is evaluated. The iterator lies on a stack of its own while the
loop runs; told without that stack, the loop takes one element after the other from the iterator and
does one turn with it. One step takes the iterator and the machine from one turn to the next, and
the number of turns counts the steps.
-/

namespace Stencil

namespace Effect

/-- Take the next element from an iterator, or do something else if there is none. -/
def take (it : Iteration) (none : Effect) (some : Value → Value → Iteration → Effect) : Effect :=
  fun m o =>
    match it.next? m.streams with
    | .none => none m o
    | .some ((position, v), it, streams) => some position v it { m with streams := streams } o

/-- At most `n` turns with the elements of an iterator. -/
def eachWithin (turn : Value → Value → Effect) : (n : Nat) → Iteration → Effect
  | 0, _ => fun _ _ => False
  | n + 1, it => take it skip fun position v it => (turn position v).andThen (eachWithin turn n it)

/-- One turn with each element of an iterator. -/
def each (turn : Value → Value → Effect) (it : Iteration) : Effect :=
  fun m o => ∃ n, eachWithin turn n it m o

/-- One turn with each element of an iterator, or an alternative if there is none. -/
def eachOrElse (turn : Value → Value → Effect) (orElse : Effect) (it : Iteration) : Effect :=
  take it orElse fun position v it => (turn position v).andThen (each turn it)

variable {turn : Value → Value → Effect} {orElse : Effect}

/-- Taking an element leaves the stacks alone if what follows does. -/
theorem Local.take {it : Iteration} {none : Effect} {some : Value → Value → Iteration → Effect}
    (hnone : none.Local) (hsome : ∀ p v it, (some p v it).Local) : (take it none some).Local where
  frame {m m'} h := by
    unfold Effect.take at h
    split at h
    · exact hnone.frame h
    · have hframe := (hsome _ _ _).frame h
      exact hframe
  within {m o} h F := by
    unfold Effect.take at h ⊢
    have hstreams : (m.within F).streams = m.streams := rfl
    rw [hstreams]
    split at h
    · exact hnone.within h F
    · have hwithin := (hsome _ _ _).within h F
      exact hwithin

/-- Taking an element is neutral if what follows is. -/
theorem Neutral.take {it : Iteration} {none : Effect} {some : Value → Value → Iteration → Effect}
    (hnone : none.Neutral []) (hsome : ∀ p v it, (some p v it).Neutral []) :
    (take it none some).Neutral [] where
  toLocal := hnone.toLocal.take fun p v it => (hsome p v it).toLocal
  dot {m m'} h := by
    unfold Effect.take at h
    split at h
    · exact hnone.dot h
    · have hdot := (hsome _ _ _).dot h
      exact hdot
  names {m m'} h := by
    unfold Effect.take at h
    split at h
    · exact hnone.names h
    · have hnames := (hsome _ _ _).names h
      exact hnames
  ordinary {m e sink streams} h := by
    unfold Effect.take at h
    split at h
    · exact hnone.ordinary h
    · exact (hsome _ _ _).ordinary h

/-- A bounded number of turns leaves the stacks alone if each turn does. -/
theorem local_eachWithin (hturn : ∀ p v, (turn p v).Local) (n : Nat) (it : Iteration) :
    (eachWithin turn n it).Local := by
  induction n generalizing it with
  | zero => exact ⟨fun h => h.elim, fun h => h.elim⟩
  | succ n ih => exact local_skip.take fun p v it => (hturn p v).andThen (ih it)

/-- A bounded number of turns is neutral if each turn is. -/
theorem neutral_eachWithin (hturn : ∀ p v, (turn p v).Neutral []) (n : Nat) (it : Iteration) :
    (eachWithin turn n it).Neutral [] := by
  induction n generalizing it with
  | zero =>
    exact { frame := fun h => h.elim, within := fun h => h.elim, dot := fun h => h.elim,
            names := fun h => h.elim, ordinary := fun h => h.elim }
  | succ n ih => exact neutral_skip.take fun p v it => (hturn p v).andThen (ih it)

/-- Taking turns leaves the stacks alone if each turn does. -/
theorem local_each (hturn : ∀ p v, (turn p v).Local) (it : Iteration) : (each turn it).Local where
  frame h := (local_eachWithin hturn h.choose it).frame h.choose_spec
  within h F := ⟨h.choose, (local_eachWithin hturn h.choose it).within h.choose_spec F⟩

/-- Taking turns is neutral if each turn is. -/
theorem neutral_each (hturn : ∀ p v, (turn p v).Neutral []) (it : Iteration) :
    (each turn it).Neutral [] where
  toLocal := local_each (fun p v => (hturn p v).toLocal) it
  dot h := (neutral_eachWithin hturn h.choose it).dot h.choose_spec
  names h := (neutral_eachWithin hturn h.choose it).names h.choose_spec
  ordinary h := (neutral_eachWithin hturn h.choose it).ordinary h.choose_spec

/-- A range leaves the stacks alone if its turns and its alternative do. -/
theorem local_eachOrElse (hturn : ∀ p v, (turn p v).Local) (horElse : orElse.Local)
    (it : Iteration) : (eachOrElse turn orElse it).Local :=
  horElse.take fun p v it => (hturn p v).andThen (local_each hturn it)

/-- A loop of neutral turns is neutral. -/
theorem neutral_eachOrElse (hturn : ∀ p v, (turn p v).Neutral []) (horElse : orElse.Neutral [])
    (it : Iteration) : (eachOrElse turn orElse it).Neutral [] :=
  horElse.take fun p v it => (hturn p v).andThen (neutral_each hturn it)

end Effect

/-! ### Turns and loops in code -/

namespace Compile

/-- The variables of a range in the order in which they are bound. -/
def rangeVars (decl : List Nat) (position v : Value) : List (Nat × Value) :=
  match decl with
  | [] => []
  | [name] => [(name, v)]
  | key :: name :: _ => [(name, v), (key, position)]

/-- The variables of a range are bound in the order in which they are declared. -/
theorem map_fst_rangeVars {decl : List Nat} (hdecl : decl.length ≤ 2) (position v : Value) :
    decl = ((rangeVars decl position v).map Prod.fst).reverse := by
  match decl with
  | [] | [_] | [_, _] => rfl
  | _ :: _ :: _ :: _ => simp at hdecl

end Compile

namespace Env

variable {env : Env} {body : List Instr} {orElse : Option (List Instr)} {m l : Machine} {o : Outcome}
  {assign : Bool} {decl : List Nat} {position v : Value} {stack : List Value}

/-- At the start of a turn the position and the element are taken off the stack. -/
theorem runs_bindCode (hdecl : decl.length ≤ 2) (hstack : m.stack = v :: position :: stack)
    (r : Outcome) :
    env.Runs (Compile.bindCode assign decl) m r ↔
      r = bound env.tables assign (Compile.rangeVars decl position v) stack m := by
  match decl with
  | [] =>
    refine runs_singleton_of_step env rfl (by simp) ?_ r
    simp [Machine.step, hstack, Step.outcome?, bound, Compile.rangeVars, Bindings.enter]
  | [name] =>
    have hpop : Closed [Instr.pop 1] := closed_cons rfl closed_nil
    have hcode : Compile.bindCode assign [name] = [.setVar name assign] ++ [.pop 1] := rfl
    rw [hcode, runs_append (closed_cons rfl closed_nil) hpop, Effect.andThen_of_eq (runs_setVar hstack)]
    unfold bound Compile.rangeVars
    cases Bindings.enter env.tables assign [(name, v)] m.bindings with
    | error e => exact Iff.rfl
    | ok bindings =>
      refine runs_singleton_of_step env rfl (by simp) ?_ r
      simp [Machine.step, Step.outcome?]
  | [key, name] =>
    have hsecond : Closed [Instr.setVar key assign] := closed_cons rfl closed_nil
    have hcode : Compile.bindCode assign [key, name] =
        [.setVar name assign] ++ [.setVar key assign] := rfl
    rw [hcode, runs_append (closed_cons rfl closed_nil) hsecond,
      Effect.andThen_of_eq (runs_setVar hstack)]
    have hvars : Bindings.enter env.tables assign (Compile.rangeVars [key, name] position v)
          m.bindings =
        (Bindings.enter env.tables assign [(name, v)] m.bindings).bind
          (Bindings.enter env.tables assign [(key, position)]) := Bindings.enter_cons ..
    unfold bound
    rw [hvars]
    cases Bindings.enter env.tables assign [(name, v)] m.bindings with
    | error e => exact Iff.rfl
    | ok bindings =>
      exact runs_setVar (m := { m with stack := position :: stack, bindings := bindings }) rfl r
  | _ :: _ :: _ :: _ => simp at hdecl

/-- A turn of a range runs the body in a scope with the element as its dot. -/
theorem runs_turnCode (hdecl : decl.length ≤ 2) (hbody : Closed body)
    (hneutral : (env.Runs body).Neutral []) (hstack : m.stack = v :: position :: stack) (F : Frame) :
    env.Runs (Compile.turnCode assign decl body) m o ↔
      ∃ r, (env.Runs body).scope env.tables assign (Compile.rangeVars decl position v) (some v)
          (m.within F) r ∧ o = r.map (·.within { m.frame with stack := stack }) := by
  have hunset : Closed (if assign then [] else Compile.unsetCode decl) := by
    cases assign
    · exact Compile.closed_unsetCode decl
    · exact closed_nil
  have hcode := ((Compile.closed_bindCode assign decl).append hbody).append hunset
  refine runs_pushDot_scope hneutral.toLocal hcode hstack { m.frame with stack := stack } rfl ?_ F
  intro r
  exact runs_bound (Compile.closed_bindCode assign decl) hbody hneutral
    (Compile.map_fst_rangeVars hdecl position v) (runs_bindCode hdecl hstack)

end Env

namespace Effect

/-- Whether an effect takes a position and an element off the stack and then does a given turn with
them. -/
def Takes (T : Effect) (turn : Value → Value → Effect) : Prop :=
  ∀ (m : Machine) (position v : Value) (stack : List Value) (o : Outcome) (F : Frame),
    m.stack = v :: position :: stack →
    (T m o ↔ ∃ r, turn position v (m.within F) r ∧
      o = r.map (·.within { m.frame with stack := stack }))

variable {T orElse : Effect} {turn : Value → Value → Effect} {m : Machine} {o : Outcome}

/-- A step of a loop: the next element is taken from the innermost iterator, and the loop goes on
with what is left of it. -/
theorem forNext_iff_take (hT : T.Takes turn) {again none : Effect} {next : Iteration → Effect}
    (it : Iteration) (F G : Frame)
    (hagain : ∀ (it : Iteration) (m : Machine) (o : Outcome),
      again (m.within { G with iterations := it :: G.iterations }) o ↔
        ∃ r, next it (m.within F) r ∧ o = r.map (·.within G))
    (hnone : none.Local) (hturn : ∀ p v, (turn p v).Local) :
    forNext (T.andThen again) none (m.within { G with iterations := it :: G.iterations }) o ↔
      ∃ r, take it none (fun position v it => (turn position v).andThen (next it)) (m.within F) r ∧
        o = r.map (·.within G) := by
  unfold forNext take
  have hstreams : (m.within F).streams = m.streams := rfl
  have hstreams' : (m.within { G with iterations := it :: G.iterations }).streams = m.streams := rfl
  have hiterations : (m.within { G with iterations := it :: G.iterations }).iterations =
      it :: G.iterations := rfl
  simp only [hstreams, hstreams', hiterations]
  cases it.next? m.streams with
  | none =>
    have hrun := hnone.run_within (m := m) (o := o) F G
    exact hrun
  | some e =>
    obtain ⟨⟨position, v⟩, it', streams⟩ := e
    have hfirst := fun r =>
      hT { m.within { G with iterations := it :: G.iterations } with
          stack := v :: position :: G.stack
          iterations := it' :: G.iterations
          streams := streams } position v G.stack r F rfl
    have hsame {m' : Machine}
        (h : turn position v (Machine.within { m with streams := streams } F) (.done m')) :
        m'.within F = m' := by
      have hframe : m'.frame = F := (hturn position v).frame h
      rw [← hframe, Machine.within_frame]
    constructor
    · intro h
      rcases h with ⟨m₁, hbody, hrest⟩ | ⟨ho, hbody⟩
      · obtain ⟨r, hr, hm₁⟩ := (hfirst _).mp hbody
        cases r with
        | failed => cases hm₁
        | done m' =>
          cases hm₁
          obtain ⟨r', hr', ho⟩ := (hagain it' m' o).mp hrest
          rw [hsame hr] at hr'
          exact ⟨r', Or.inl ⟨m', hr, hr'⟩, ho⟩
      · obtain ⟨r, hr, rfl⟩ := (hfirst _).mp hbody
        cases r with
        | done => exact ho.elim
        | failed e sink streams' =>
          exact ⟨.failed e sink streams', Or.inr ⟨trivial, hr⟩, rfl⟩
    · rintro ⟨r, h, ho⟩
      rcases h with ⟨m', hbody, hrest⟩ | ⟨hfails, hbody⟩
      · refine Or.inl ⟨_, (hfirst _).mpr ⟨_, hbody, rfl⟩, (hagain it' m' o).mpr ⟨r, ?_, ho⟩⟩
        rw [hsame hbody]
        exact hrest
      · cases r with
        | done => exact hfails.elim
        | failed e sink streams' =>
          rw [ho]
          exact Or.inr ⟨trivial, (hfirst _).mpr ⟨_, hbody, rfl⟩⟩

/-- The turns of a loop over the innermost iterator are turns with its elements. -/
theorem turns_iff_eachWithin (hT : T.Takes turn) (hturn : ∀ p v, (turn p v).Local) (n : Nat)
    (it : Iteration) (F G : Frame) :
    turns T skip n (m.within { G with iterations := it :: G.iterations }) o ↔
      ∃ r, eachWithin turn n it (m.within F) r ∧ o = r.map (·.within G) := by
  induction n generalizing it m o with
  | zero =>
    constructor
    · exact fun h => h.elim
    · exact fun ⟨_, h, _⟩ => h.elim
  | succ n ih =>
    exact forNext_iff_take hT it F G (fun it m o => ih it) local_skip hturn

/-- A loop over an iterator on the machine takes the turns that the iterator gives. -/
theorem loop_iff_each (hT : T.Takes turn) (hturn : ∀ p v, (turn p v).Local) (it : Iteration)
    (F G : Frame) :
    loop T skip (m.within { G with iterations := it :: G.iterations }) o ↔
      ∃ r, each turn it (m.within F) r ∧ o = r.map (·.within G) := by
  constructor
  · rintro ⟨n, h⟩
    obtain ⟨r, hr, ho⟩ := (turns_iff_eachWithin hT hturn n it F G).mp h
    exact ⟨r, ⟨n, hr⟩, ho⟩
  · rintro ⟨r, ⟨n, hr⟩, ho⟩
    exact ⟨n, (turns_iff_eachWithin hT hturn n it F G).mpr ⟨r, hr, ho⟩⟩

end Effect

namespace Compile

/-- One turn of a range over a body: the element is the dot, and the variables of the range are
bound. -/
def rangeTurn (t : Tables) (assign : Bool) (decl : List Nat) (body : Effect) (position v : Value) :
    Effect :=
  body.scope t assign (rangeVars decl position v) (some v)

end Compile

namespace Env

variable {env : Env} {body : List Instr} {orElse : Option (List Instr)} {m : Machine} {o : Outcome}
  {assign : Bool} {decl : List Nat}

/-- The code of a loop over an iterator that lies on top of the others takes one element after the
other from it. -/
theorem runs_loopCode_iff (hdecl : decl.length ≤ 2) (hbody : Closed body)
    (hneutral : (env.Runs body).Neutral []) (horElse : Closed (orElse.getD []))
    (hother : (env.Runs (orElse.getD [])).Local) (it : Iteration) (F G : Frame) :
    env.Runs (Compile.loopCode (Compile.turnCode assign decl body) orElse)
        (m.within { G with iterations := it :: G.iterations }) o ↔
      ∃ r, Effect.eachOrElse (Compile.rangeTurn env.tables assign decl (env.Runs body))
          (env.Runs (orElse.getD [])) it (m.within F) r ∧ o = r.map (·.within G) := by
  have hT : (env.Runs (Compile.turnCode assign decl body)).Takes
      (Compile.rangeTurn env.tables assign decl (env.Runs body)) :=
    fun m position v stack o F hstack => runs_turnCode hdecl hbody hneutral hstack F
  have hturn (p v : Value) : (Compile.rangeTurn env.tables assign decl (env.Runs body) p v).Local :=
    hneutral.toLocal.scope
  rw [Compile.runs_loopCode (Compile.closed_turnCode assign decl hbody) horElse]
  exact Effect.forNext_iff_take hT it F G
    (fun it _ _ => Effect.loop_iff_each hT hturn it F G) hother hturn

end Env
end Stencil
