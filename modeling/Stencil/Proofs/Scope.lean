import Stencil.Proofs.Neutral

/-!
# Scopes in code

The instructions around the body of a branch bind variables to values on the stack and make a value
the dot; those behind the body undo it. With a body that leaves the stacks alone the whole is a
scope around the body.
-/

namespace Stencil

namespace Effect

variable {D D' E : Effect} {t : Tables} {assign : Bool} {vars : List (Nat × Value)} {m : Machine}
  {o : Outcome}

/-- What comes after an effect does not depend on how the effect is told. -/
theorem andThen_congr_left {m' : Machine} (h : ∀ r, D m r ↔ D' m' r) :
    D.andThen E m o ↔ D'.andThen E m' o := by
  simp only [andThen, h]

/-- A scope without variables that keeps the dot is no scope. -/
theorem scope_nil (hD : Neutral D []) : D.scope t assign [] none = D := by
  funext m o
  simp only [scope, Bindings.enter, Option.getD_none, List.length_nil, ite_self, eq_iff_iff]
  have hsame {m' : Machine} (h : D m (.done m')) : { m'.forget 0 with dot := m.dot } = m' := by
    rw [← hD.dot h]
    rfl
  constructor
  · rintro ⟨r, hr, ho⟩
    cases r with
    | failed => exact ho ▸ hr
    | done m' =>
      rw [Outcome.map_done, hsame hr] at ho
      exact ho ▸ hr
  · intro h
    refine ⟨o, h, ?_⟩
    cases o with
    | failed => rfl
    | done m' => rw [Outcome.map_done, hsame h]

/-- A scope with another dot is a scope on a machine with that dot, which is reset afterwards. -/
theorem scope_some (v : Value) :
    D.scope t assign vars (some v) m o ↔
      ∃ r, D.scope t assign vars none { m with dot := v } r ∧
        o = r.map fun m' => { m' with dot := m.dot } := by
  unfold scope
  simp only
  cases Bindings.enter t assign vars m.bindings with
  | error e =>
    constructor
    · intro h
      exact ⟨_, rfl, h⟩
    · rintro ⟨r, hr, ho⟩
      cases hr
      exact ho
  | ok bindings =>
    constructor
    · rintro ⟨r, hr, ho⟩
      refine ⟨_, ⟨r, hr, rfl⟩, ?_⟩
      rw [Outcome.map_map]
      exact ho
    · rintro ⟨_, ⟨r, hr, hr'⟩, ho⟩
      refine ⟨r, hr, ?_⟩
      rw [ho, hr', Outcome.map_map]
      rfl

end Effect

namespace Env

variable {env : Env} {code body bind : List Instr} {pop : Option Nat} {m l : Machine} {o : Outcome}
  {assign : Bool} {vars : List (Nat × Value)} {v : Value} {stack : List Value}

/-- The end of a run that binds or assigns variables and leaves the given values on the stack. -/
def bound (t : Tables) (assign : Bool) (vars : List (Nat × Value)) (stack : List Value)
    (m : Machine) : Outcome :=
  match Bindings.enter t assign vars m.bindings with
  | .error e => .failed e m.sink m.streams
  | .ok bindings => .done { m with stack := stack, bindings := bindings }

/-- A `SETVAR` binds or assigns the top of the stack. -/
theorem runs_setVar {name : Nat} (hstack : m.stack = v :: stack) (r : Outcome) :
    env.Runs [.setVar name assign] m r ↔ r = bound env.tables assign [(name, v)] stack m := by
  refine runs_singleton_of_step env rfl (by simp) ?_ r
  simp only [Machine.step, hstack, bound, Bindings.enter]
  cases assign with
  | false => rfl
  | true =>
    simp only [if_true]
    cases Bindings.assign? name v m.bindings <;> rfl

/-- A neutral body between code that binds variables and code that removes them runs in a scope. -/
theorem runs_bound {names : List Nat} (hbind : Closed bind) (hbody : Closed body)
    (hneutral : (env.Runs body).Neutral []) (hnames : names = (vars.map Prod.fst).reverse)
    (hruns : ∀ r, env.Runs bind m r ↔ r = bound env.tables assign vars stack m) :
    env.Runs (bind ++ body ++ (if assign then [] else Compile.unsetCode names)) m o ↔
      (env.Runs body).scope env.tables assign vars none { m with stack := stack } o := by
  have hunset : Closed (if assign then [] else Compile.unsetCode names) := by
    cases assign
    · exact Compile.closed_unsetCode names
    · exact closed_nil
  rw [List.append_assoc, runs_append hbind (hbody.append hunset), Effect.andThen_of_eq hruns]
  unfold bound Effect.scope
  cases henter : Bindings.enter env.tables assign vars m.bindings with
  | error e => exact Iff.rfl
  | ok bindings =>
    simp only [Effect.proceed, runs_append hbody hunset, Option.getD_none]
    have hgive (r : Outcome) (hr : env.Runs body { m with stack := stack, bindings := bindings } r) :
        r.map (Machine.forget (if assign then 0 else vars.length)) =
          r.map fun m' =>
            { m'.forget (if assign then 0 else vars.length) with dot := m.dot } := by
      cases r with
      | failed => rfl
      | done m' =>
        have hdot := hneutral.dot hr
        have hdot : m'.dot = m.dot := hdot
        simp only [Outcome.map_done, ← hdot]
        rfl
    have hafter : (env.Runs body).andThen (env.Runs (if assign then [] else Compile.unsetCode names))
          { m with stack := stack, bindings := bindings } o ↔
        ∃ r, env.Runs body { m with stack := stack, bindings := bindings } r ∧
          o = r.map (Machine.forget (if assign then 0 else vars.length)) := by
      cases assign with
      | true =>
        have hforget : Machine.forget 0 = id := rfl
        simp [runs_nil, hforget]
      | false =>
        have hlength : vars.length = names.length := by simp [hnames]
        simp only [Bool.false_eq_true, if_false, hlength]
        refine andThen_unsetCode fun m' hr => ⟨m.names, ?_⟩
        have hentered := Bindings.map_fst_enter henter
        rw [hneutral.names hr, hnames]
        exact hentered
    rw [hafter]
    constructor
    · rintro ⟨r, hr, ho⟩
      exact ⟨r, hr, ho.trans (hgive r hr)⟩
    · rintro ⟨r, hr, ho⟩
      exact ⟨r, hr, ho.trans (hgive r hr).symm⟩

/-- Code between `PUSHDOT` and `POPDOT` runs with the top of the stack as its dot. -/
theorem runs_pushDot (hcode : Closed code)
    (hdots : ∀ {m'}, env.Runs code { m with dots := m.dot :: m.dots, dot := v } (.done m') →
      m'.dots = m.dot :: m.dots) (hstack : m.stack = v :: stack) :
    env.Runs (.pushDot :: (code ++ [.popDot])) m o ↔
      ∃ r, env.Runs code { m with dots := m.dot :: m.dots, dot := v } r ∧
        o = r.map fun m' => { m' with dots := m.dots, dot := m.dot } := by
  have hpush : (m.step env.schema env.tables .pushDot).outcome? =
      some (.done { m with dots := m.dot :: m.dots, dot := v }) := by
    simp only [Machine.step, hstack, Step.outcome?]
  have hpopDot : Closed [Instr.popDot] := closed_cons rfl closed_nil
  rw [runs_cons_of_step env rfl (by simp) hpush (hcode.append hpopDot), Effect.proceed,
    runs_append hcode hpopDot]
  have hpop {m' : Machine}
      (h : env.Runs code { m with dots := m.dot :: m.dots, dot := v } (.done m')) (r : Outcome) :
      env.Runs [.popDot] m' r ↔ r = .done { m' with dots := m.dots, dot := m.dot } := by
    have hsaved : m'.dots = m.dot :: m.dots := hdots h
    refine runs_singleton_of_step env rfl (by simp) ?_ r
    simp only [Machine.step, hsaved, Step.outcome?]
  constructor
  · intro h
    rcases h with ⟨m', hrun, hlast⟩ | ⟨ho, hrun⟩
    · exact ⟨_, hrun, (hpop hrun o).mp hlast⟩
    · refine ⟨o, hrun, ?_⟩
      cases o with
      | done => exact ho.elim
      | failed => rfl
  · rintro ⟨r, hrun, ho⟩
    cases r with
    | done m' => exact Or.inl ⟨m', hrun, (hpop hrun o).mpr ho⟩
    | failed e sink streams =>
      rw [ho]
      exact Or.inr ⟨trivial, hrun⟩

/-- If the code between them runs in a scope, `PUSHDOT` and `POPDOT` make the top of the stack the dot
of the scope. -/
theorem runs_pushDot_scope {D : Effect} (hD : D.Local) (hcode : Closed code)
    (hstack : m.stack = v :: stack) (G : Frame) (hsaved : G.dots = m.dots)
    (hruns : ∀ r, env.Runs code { m with dots := m.dot :: m.dots, dot := v } r ↔
      D.scope env.tables assign vars none
        (Machine.within { m with dot := v } { G with dots := m.dot :: G.dots }) r) (F : Frame) :
    env.Runs (.pushDot :: (code ++ [.popDot])) m o ↔
      ∃ r, D.scope env.tables assign vars (some v) (m.within F) r ∧ o = r.map (·.within G) := by
  have hscope : (D.scope env.tables assign vars none).Local := hD.scope
  have hdots {m' : Machine}
      (h : env.Runs code { m with dots := m.dot :: m.dots, dot := v } (.done m')) :
      m'.dots = m.dot :: m.dots := by
    have hframe := congrArg Frame.dots (hscope.frame ((hruns _).mp h))
    rw [← hsaved]
    exact hframe
  have hwithin (r : Outcome) := (hruns r).trans
    (hscope.run_within (m := { m with dot := v }) F { G with dots := m.dot :: G.dots })
  have hback (m' : Machine) :
      { m'.within { G with dots := m.dot :: G.dots } with dots := m.dots, dot := m.dot } =
        Machine.within { m' with dot := m.dot } G := by
    rw [← hsaved]
    rfl
  rw [runs_pushDot hcode hdots hstack]
  simp only [hwithin, Effect.scope_some]
  constructor
  · rintro ⟨_, ⟨r, hr, rfl⟩, ho⟩
    refine ⟨_, ⟨r, hr, rfl⟩, ?_⟩
    rw [ho, Outcome.map_map, Outcome.map_map]
    exact congrArg (r.map ·) (funext hback)
  · rintro ⟨_, ⟨r, hr, rfl⟩, ho⟩
    refine ⟨_, ⟨r, hr, rfl⟩, ?_⟩
    rw [ho, Outcome.map_map, Outcome.map_map]
    exact congrArg (r.map ·) (funext hback).symm

/-- Behind code that leaves the stacks alone, a `POP` that fits uncovers what is below the values
that lie on top. -/
theorem andThen_popCode {D : Effect} (hD : D.Local) (F : Frame) (hfits : Fits pop l.stack.length) :
    D.andThen (env.Runs (Compile.popCode pop)) (l.above (F.held pop)) o ↔ D (l.within F) o := by
  have hstop (m : Machine) :
      m.within { F.held pop with stack := l.stack ++ (F.held pop).stack } =
        Machine.above { m with stack := l.stack } (F.held pop) := rfl
  have hpop (m' : Machine) :
      env.Runs (Compile.popCode pop) (Machine.above { m' with stack := l.stack } (F.held pop)) o ↔
        o = .done (m'.within F) :=
    runs_popCode (l := { m' with stack := l.stack }) F hfits o
  have hrun (r : Outcome) : D (l.above (F.held pop)) r ↔
      ∃ r', D (l.within F) r' ∧
        r = r'.map (·.within { F.held pop with stack := l.stack ++ (F.held pop).stack }) :=
    hD.run_within F { F.held pop with stack := l.stack ++ (F.held pop).stack }
  have hsame {m' : Machine} (h : D (l.within F) (.done m')) : m'.within F = m' := by
    have hframe : m'.frame = F := hD.frame h
    rw [← hframe, Machine.within_frame]
  constructor
  · intro h
    rcases h with ⟨m₁, hfirst, hlast⟩ | ⟨ho, hfirst⟩
    · obtain ⟨r', hr', hm₁⟩ := (hrun _).mp hfirst
      cases r' with
      | failed => cases hm₁
      | done m' =>
        cases hm₁
        rw [(hpop m').mp hlast, hsame hr']
        exact hr'
    · obtain ⟨r', hr', rfl⟩ := (hrun _).mp hfirst
      cases r' with
      | done => exact ho.elim
      | failed => exact hr'
  · intro h
    cases o with
    | failed e sink streams => exact Or.inr ⟨trivial, (hrun _).mpr ⟨_, h, rfl⟩⟩
    | done m' =>
      refine Or.inl ⟨_, (hrun _).mpr ⟨_, h, rfl⟩, (hpop m').mpr ?_⟩
      rw [hsame h]

end Env
end Stencil
