import Stencil.Proofs.Truncation

/-!
# Pooling

Renders of one program may share stacks. Whatever a render has left on its stacks when it ended, also if
it was given up in the middle of nested calls and loops, they are emptied before another one gets them. So
no render can tell which renders came before it, apart from what those have taken from the streams.
-/

namespace Stencil

/-- Without streams nothing is received. -/
theorem Iteration.streams_next? {it it' : Iteration} {e : Value × Value} {streams : Streams}
    (h : it.next? .none = some (e, it', streams)) : streams = .none := by
  cases it with
  | entries rest =>
    cases rest with
    | nil => cases h
    | cons first rest =>
      cases h
      rfl
  | stream id count => cases h

/-- A step makes no streams. -/
theorem Machine.streams_step {schema : Schema} {t : Tables} {i : Instr} {m : Machine}
    (h : m.streams = .none) : (m.step schema t i).machine.streams = .none := by
  cases hstep : m.step schema t i with
  | next m' =>
    have hadvances := Machine.step_eq_next.mp hstep
    cases hadvances with
    | turn _ hnext => exact Iteration.streams_next? (h ▸ hnext)
    | _ => exact h
  | jump k m' =>
    have hjumps := Machine.step_eq_jump.mp hstep
    cases hjumps <;> exact h
  | fail e m' =>
    obtain ⟨stack, sink, rfl⟩ := Machine.retains_of_step_fail hstep
    exact h

/-- Nothing in a run makes streams. -/
theorem Program.respects_streams (p : Program) :
    p.Respects fun m m' => m.streams = .none → m'.streams = .none where
  refl _ := id
  trans h h' hnone := h' (h hnone)
  step _ _ := Machine.streams_step
  activate m ns v hnone := by
    obtain ⟨own, heq⟩ := Machine.activate_eq ns v m
    rw [heq]
    exact hnone
  leave _ _ := id

/-- A run makes no streams. -/
theorem Program.streams_run {p : Program} {fuel : Nat} {name : String} {data vars : Value}
    {m after : Machine} (h : m.streams = .none)
    (hends : (p.run fuel name data vars m).machine? = some after) : after.streams = .none := by
  simp only [run] at hends
  split at hends
  · cases hends
    exact h
  · exact p.respects_streams.related_runFrom hends (p.respects_streams.activate _ "" data h)

namespace Session

variable {s : Session} {fuel : Nat} {r : RenderRequest}

/-- The session after some renders. -/
def after (s : Session) (fuel : Nat) : List RenderRequest → Session
  | [] => s
  | r :: rest => (s.render fuel r).2.after fuel rest

/-- Whether all stacks in the pool are empty. -/
def IsClean (s : Session) : Prop := ∀ spare ∈ s.pool, spare = .empty

/-- A clean session hands out empty stacks and stays clean. -/
theorem IsClean.checkout (h : s.IsClean) (pooled : Bool) :
    ∃ pool, s.checkout pooled = (.empty, { s with pool := pool }) ∧
      ∀ spare ∈ pool, spare = Stacks.empty := by
  unfold Session.checkout
  split
  · next spare pool hpool =>
    have hempty : ∀ spare ∈ s.pool, spare = Stacks.empty := h
    obtain ⟨hspare, hrest⟩ := List.forall_mem_cons.mp (hpool ▸ hempty)
    exact ⟨pool, by rw [hspare], hrest⟩
  · exact ⟨s.pool, rfl, h⟩

/-- Stacks are emptied before they are put into the pool. -/
theorem IsClean.checkin (h : s.IsClean) (pooled : Bool) (m : Machine) : (s.checkin pooled m).IsClean := by
  unfold Session.checkin
  split
  · exact List.forall_mem_cons.mpr ⟨rfl, h⟩
  · exact h

/-- Giving a machine back leaves the program as it is. -/
theorem program_checkin (s : Session) (pooled : Bool) (m : Machine) :
    (s.checkin pooled m).program = s.program := by
  unfold checkin
  split <;> rfl

/-- A render on empty stacks. -/
def renderOnce (p : Program) (fuel : Nat) (streams : Streams) (r : RenderRequest) : Rendered :=
  if p.hasTemplate r.name then
    match p.run fuel r.name r.data r.vars.toValue (.fresh r.sink streams) with
    | .done m => .done m.sink
    | .failed e m => .failed (runtimeError p e) m.sink
    | .outOfFuel => .outOfFuel
  else .failed (.misuse ("no such template " ++ Text.quoted r.name)) r.sink

/-- A clean session renders on empty stacks, whether it takes them from its pool or not. It stays clean,
however the render ends, and it makes no streams. -/
theorem IsClean.render (h : s.IsClean) (fuel : Nat) (r : RenderRequest) :
    (s.render fuel r).1 = renderOnce s.program fuel s.streams r ∧ (s.render fuel r).2.IsClean ∧
      (s.render fuel r).2.program = s.program ∧
      (s.streams = .none → (s.render fuel r).2.streams = .none) := by
  unfold Session.render renderOnce
  by_cases hname : s.program.hasTemplate r.name
  · obtain ⟨pool, hcheckout, hpool⟩ := h.checkout (s.options.override r.options).poolStates
    have hclean : ({ s with pool := pool } : Session).IsClean := hpool
    have hfresh : ({ Stacks.empty with dot := .nil, sink := r.sink, streams := s.streams } : Machine) =
        .fresh r.sink s.streams := rfl
    simp only [if_pos hname, hcheckout, hfresh]
    have hstreams {m : Machine} (hends : (s.program.run fuel r.name r.data r.vars.toValue
        (.fresh r.sink s.streams)).machine? = some m) (hnone : s.streams = .none) : m.streams = .none :=
      Program.streams_run hnone hends
    generalize s.program.run fuel r.name r.data r.vars.toValue (.fresh r.sink s.streams) = run at hstreams
    cases run with
    | done m | failed e m =>
      exact ⟨rfl, hclean.checkin _ m, program_checkin { s with pool := pool } _ m, hstreams rfl⟩
    | outOfFuel => exact ⟨rfl, hclean, rfl, id⟩
  · rw [if_neg hname, if_neg hname]
    exact ⟨rfl, h, rfl, id⟩

/-- After any renders a session is clean. -/
theorem isClean_after (h : s.IsClean) (fuel : Nat) (history : List RenderRequest) :
    (s.after fuel history).IsClean ∧ (s.after fuel history).program = s.program ∧
      (s.streams = .none → (s.after fuel history).streams = .none) := by
  induction history generalizing s with
  | nil => exact ⟨h, rfl, id⟩
  | cons r rest ih =>
    obtain ⟨-, hclean, hprogram, hstreams⟩ := h.render fuel r
    obtain ⟨hclean', hprogram', hstreams'⟩ := ih hclean
    exact ⟨hclean', hprogram'.trans hprogram, hstreams' ∘ hstreams⟩

/-- Whatever renders a session has done, with or without its pool, and however they ended: all stacks in
its pool are empty, and the next render writes and answers what it does alone, in a new session of the
same program that does not use its pool, on the streams as the renders before have left them. If there
were no streams, there are none. -/
theorem pooling_unobservable (p : Program) (options : RunOptions) (streams : Streams) (fuel : Nat)
    (history : List RenderRequest) (r : RenderRequest) :
    let s := (start p options streams).after fuel history
    (∀ spare ∈ s.pool, spare.stack = [] ∧ spare.marks = [] ∧ spare.bindings = [] ∧ spare.dots = [] ∧
      spare.iterations = []) ∧
    (s.render fuel r).1 =
      ((start p ⟨false⟩ s.streams).render fuel { r with options := ⟨none⟩ }).1 ∧
    (streams = .none → s.streams = .none) := by
  have hstart (options : RunOptions) (streams : Streams) : (start p options streams).IsClean :=
    fun _ hspare => nomatch hspare
  obtain ⟨hclean, hprogram, hstreams⟩ := isClean_after (hstart options streams) fuel history
  refine ⟨fun spare hspare => ?_, ?_, hstreams⟩
  · rw [hclean spare hspare]
    exact ⟨rfl, rfl, rfl, rfl, rfl⟩
  · rw [(hclean.render fuel r).1, ((hstart ⟨false⟩ _).render fuel _).1, hprogram]
    rfl

end Session
end Stencil
