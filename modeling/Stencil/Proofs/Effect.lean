import Stencil.Machine.Run

/-!
# Effects

What a piece of code does to a machine, as a relation between the machine it starts on and the way
it ends. The effects of pieces that stand one after the other compose, so the effect of a whole
template can be computed from those of its parts. A run that never ends has no outcome.

Of a failed run only the error, the output and the streams are kept: what it leaves on the stacks
is given up with the machine.
-/

namespace Stencil

/-- How running a piece of code ends. -/
inductive Outcome where
  | done (m : Machine)
  | failed (error : RuntimeError) (sink : Sink) (streams : Streams)

namespace Outcome

/-- Change the machine of a run that succeeded. -/
def map (f : Machine → Machine) : Outcome → Outcome
  | done m => done (f m)
  | failed e sink streams => failed e sink streams

/-- A successful outcome is changed in its machine. -/
@[simp]
theorem map_done (f : Machine → Machine) (m : Machine) : (done m).map f = done (f m) := rfl

/-- A failure is left as it is. -/
@[simp]
theorem map_failed (f : Machine → Machine) (e : RuntimeError) (sink : Sink) (streams : Streams) :
    (failed e sink streams).map f = failed e sink streams := rfl

/-- Changing nothing about an outcome leaves it as it is. -/
@[simp]
theorem map_id (o : Outcome) : o.map id = o := by cases o <;> rfl

/-- Two changes of an outcome are one. -/
@[simp]
theorem map_map (f g : Machine → Machine) (o : Outcome) :
    (o.map f).map g = o.map (g ∘ f) := by cases o <;> rfl

/-- An outcome is successful exactly if it has been before it was changed. -/
theorem map_eq_done_iff {f : Machine → Machine} {o : Outcome} {m : Machine} :
    o.map f = done m ↔ ∃ l, o = done l ∧ f l = m := by
  cases o <;> simp

/-- An outcome is a failure exactly if it has been before it was changed. -/
theorem map_eq_failed_iff {f : Machine → Machine} {o : Outcome} {e : RuntimeError} {sink : Sink}
    {streams : Streams} : o.map f = failed e sink streams ↔ o = failed e sink streams := by
  cases o <;> simp

/-- Whether a run failed. -/
def Fails : Outcome → Prop
  | done _ => False
  | failed .. => True

end Outcome

/-- The outcome of a step that does not jump. -/
def Step.outcome? : Step → Option Outcome
  | .next m => some (.done m)
  | .jump _ _ => none
  | .fail e m => some (.failed e m.sink m.streams)

/-- The outcome of a run, if it ended. -/
def Run.outcome? : Run → Option Outcome
  | .done m => some (.done m)
  | .failed e m => some (.failed e.kind m.sink m.streams)
  | .outOfFuel => none

/-- What running a piece of code does. -/
abbrev Effect := Machine → Outcome → Prop

namespace Effect

/-- Do nothing. -/
def skip : Effect := fun m o => o = .done m

/-- Fail on every machine. -/
def fail (e : RuntimeError) : Effect := fun m o => o = .failed e m.sink m.streams

/-- One effect after the other, unless the first one fails. -/
def andThen (D E : Effect) : Effect := fun m o =>
  (∃ m', D m (.done m') ∧ E m' o) ∨ (o.Fails ∧ D m o)

/-- One of two effects, as the top of the stack is true or not. -/
def choose (D E : Effect) : Effect := fun m o =>
  if m.stack.head?.any Value.isTrue then D m o else E m o

/-- Doing nothing afterwards changes nothing. -/
@[simp]
theorem andThen_skip (D : Effect) : D.andThen skip = D := by
  funext m o
  simp only [skip, andThen, eq_iff_iff]
  constructor
  · intro h
    rcases h with ⟨m', h, rfl⟩ | ⟨-, h⟩ <;> exact h
  · intro h
    cases o with
    | done m' => exact Or.inl ⟨m', h, rfl⟩
    | failed => exact Or.inr ⟨trivial, h⟩

/-- What does more at each step does more in sequence. -/
theorem andThen_mono {D D' E E' : Effect} (hD : ∀ m o, D m o → D' m o)
    (hE : ∀ m o, E m o → E' m o) {m : Machine} {o : Outcome} (h : D.andThen E m o) :
    D'.andThen E' m o := by
  rcases h with ⟨m', hd, he⟩ | ⟨ho, hd⟩
  · exact Or.inl ⟨m', hD _ _ hd, hE _ _ he⟩
  · exact Or.inr ⟨ho, hD _ _ hd⟩

/-- Go on from the end of a run, unless it failed. -/
def proceed (E : Effect) : (r o : Outcome) → Prop
  | .done m, o => E m o
  | .failed e sink streams, o => o = .failed e sink streams

/-- After an effect with one known outcome comes what the second effect does there. -/
theorem andThen_of_eq {D E : Effect} {m : Machine} {r : Outcome} (h : ∀ o, D m o ↔ o = r)
    (o : Outcome) : D.andThen E m o ↔ E.proceed r o := by
  simp only [andThen, h]
  cases r with
  | done m' =>
    constructor
    · intro hrun
      rcases hrun with ⟨m₁, hm, he⟩ | ⟨hf, rfl⟩
      · cases hm
        exact he
      · exact hf.elim
    · exact fun he => Or.inl ⟨m', rfl, he⟩
  | failed e sink streams =>
    constructor
    · intro hrun
      rcases hrun with ⟨m₁, hm, -⟩ | ⟨-, ho⟩
      · cases hm
      · exact ho
    · exact fun ho => Or.inr ⟨ho ▸ trivial, ho⟩

/-- Take the next element of the innermost iterator and go on, or give the iterator up and finish. -/
def forNext (turn finish : Effect) : Effect := fun m o =>
  match m.iterations with
  | [] => fail (.invalidCode "no active iterator") m o
  | it :: others =>
    match it.next? m.streams with
    | none => finish { m with iterations := others } o
    | some ((position, v), it, streams) =>
      turn { m with
        stack := v :: position :: m.stack
        iterations := it :: others
        streams := streams } o

/-- At most `n` turns of a loop over the innermost iterator. -/
def turns (body finish : Effect) : (n : Nat) → Effect
  | 0 => fun _ _ => False
  | n + 1 => forNext (body.andThen (turns body finish n)) finish

/-- A loop over the innermost iterator and what comes after it. -/
def loop (body finish : Effect) : Effect := fun m o => ∃ n, turns body finish n m o

/-- A loop does more if its body and what comes after it do more. -/
theorem forNext_mono {D D' E E' : Effect} (hD : ∀ m o, D m o → D' m o) (hE : ∀ m o, E m o → E' m o)
    {m : Machine} {o : Outcome} (h : forNext D E m o) : forNext D' E' m o := by
  unfold forNext at h ⊢
  split at h
  · exact h
  · split at h
    · exact hE _ _ h
    · exact hD _ _ h

/-- After an element a loop goes on as before. -/
theorem loop_eq (body finish : Effect) :
    loop body finish = forNext (body.andThen (loop body finish)) finish := by
  funext m o
  apply propext
  constructor
  · intro h
    rcases h with ⟨_ | n, h⟩
    · exact h.elim
    · refine forNext_mono (fun m o hturn => ?_) (fun _ _ hfinish => hfinish) h
      exact andThen_mono (fun _ _ hbody => hbody) (fun _ _ hagain => ⟨n, hagain⟩) hturn
  · intro h
    cases hits : m.iterations with
    | nil => exact ⟨1, by simpa only [turns, forNext, hits] using h⟩
    | cons it others =>
      cases hmore : it.next? m.streams with
      | none => exact ⟨1, by simpa only [turns, forNext, hits, hmore] using h⟩
      | some e =>
        simp only [forNext, hits, hmore] at h
        obtain ⟨n, hturn⟩ : ∃ n, body.andThen (turns body finish n) _ o := by
          rcases h with ⟨m', hbody, n, hagain⟩ | ⟨ho, hbody⟩
          · exact ⟨n, Or.inl ⟨m', hbody, hagain⟩⟩
          · exact ⟨0, Or.inr ⟨ho, hbody⟩⟩
        exact ⟨n + 1, by simpa only [turns, forNext, hits, hmore] using hturn⟩

end Effect
end Stencil
