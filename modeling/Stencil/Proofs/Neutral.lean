import Stencil.Proofs.Balance
import Stencil.Proofs.Failure

/-!
# Neutral effects

The code of a statement leaves all stacks as it found them and does not depend on what is on them,
so what it does can be told from a run on empty stacks. Only the variables it declares stay. Such
code can run with another dot and with more variables, which are given up when it is over.
-/

namespace Stencil

namespace Effect

/-- Whether an effect leaves the stacks as they are and does not depend on them. -/
structure Local (D : Effect) : Prop where
  frame : ∀ {m m' : Machine}, D m (.done m') → m'.frame = m.frame
  within : ∀ {m : Machine} {o : Outcome}, D m o → ∀ F, D (m.within F) (o.map (·.within F))

/-- Whether an effect also leaves the dot as it is, declares the given variables, the last one
first, and only fails in ordinary ways. -/
structure Neutral (D : Effect) (declared : List Nat) : Prop extends Local D where
  dot : ∀ {m m' : Machine}, D m (.done m') → m'.dot = m.dot
  names : ∀ {m m' : Machine}, D m (.done m') → m'.names = declared ++ m.names
  ordinary : ∀ {m : Machine} {e : RuntimeError} {sink : Sink} {streams : Streams},
    D m (.failed e sink streams) → e.Ordinary

variable {D E : Effect} {m : Machine} {o : Outcome}

/-- What an effect does on given stacks follows from what it does on others. -/
theorem Local.run_within (hD : Local D) (F G : Frame) :
    D (m.within G) o ↔ ∃ r, D (m.within F) r ∧ o = r.map (·.within G) := by
  constructor
  · intro h
    refine ⟨o.map (·.within F), hD.within h F, ?_⟩
    rw [Outcome.map_map]
    cases o with
    | done m' =>
      have hframe : m'.frame = G := hD.frame h
      simp only [Outcome.map_done, Function.comp_apply, Machine.within_within, ← hframe,
        Machine.within_frame]
    | failed => rfl
  · rintro ⟨r, hr, ho⟩
    rw [ho]
    exact hD.within hr G

/-- Doing nothing leaves the stacks alone. -/
theorem local_skip : Local skip where
  frame h := by
    cases h
    rfl
  within h F := by
    cases h
    rfl

/-- Doing nothing is neutral. -/
theorem neutral_skip : Neutral skip [] where
  toLocal := local_skip
  dot h := by
    cases h
    rfl
  names h := by
    cases h
    rfl
  ordinary h := by cases h

/-- Two effects that leave the stacks alone do so in sequence. -/
theorem Local.andThen (hD : Local D) (hE : Local E) : Local (D.andThen E) where
  frame h := by
    rcases h with ⟨m₁, hfirst, hsecond⟩ | ⟨ho, -⟩
    · exact (hE.frame hsecond).trans (hD.frame hfirst)
    · exact ho.elim
  within {m o} h F := by
    rcases h with ⟨m₁, hfirst, hsecond⟩ | ⟨ho, hfirst⟩
    · exact Or.inl ⟨m₁.within F, hD.within hfirst F, hE.within hsecond F⟩
    · refine Or.inr ⟨?_, hD.within hfirst F⟩
      cases o with
      | done => exact ho.elim
      | failed => trivial

/-- Two neutral effects in sequence are neutral, and the variables of both stay. -/
theorem Neutral.andThen {first second : List Nat} (hD : Neutral D first) (hE : Neutral E second) :
    Neutral (D.andThen E) (second ++ first) where
  toLocal := hD.toLocal.andThen hE.toLocal
  dot h := by
    rcases h with ⟨m₁, hfirst, hsecond⟩ | ⟨ho, -⟩
    · exact (hE.dot hsecond).trans (hD.dot hfirst)
    · exact ho.elim
  names h := by
    rcases h with ⟨m₁, hfirst, hsecond⟩ | ⟨ho, -⟩
    · rw [hE.names hsecond, hD.names hfirst, List.append_assoc]
    · exact ho.elim
  ordinary h := by
    rcases h with ⟨m₁, -, hsecond⟩ | ⟨-, hfirst⟩
    · exact hE.ordinary hsecond
    · exact hD.ordinary hfirst

end Effect

/-- Give up the innermost `n` variables. -/
def Machine.forget (n : Nat) (m : Machine) : Machine := { m with bindings := m.bindings.drop n }

/-- Bind or assign variables one after the other. -/
def Bindings.enter (t : Tables) (assign : Bool) :
    (vars : List (Nat × Value)) → List (Nat × Value) → Except RuntimeError (List (Nat × Value))
  | [], bindings => .ok bindings
  | (name, v) :: vars, bindings =>
    if assign then
      match assign? name v bindings with
      | none => .error (Machine.unbound t name)
      | some bindings => enter t assign vars bindings
    else enter t assign vars ((name, v) :: bindings)

/-- The first variable is bound or assigned before the others. -/
theorem Bindings.enter_cons (t : Tables) (assign : Bool) (var : Nat × Value)
    (vars bindings : List (Nat × Value)) :
    enter t assign (var :: vars) bindings =
      (enter t assign [var] bindings).bind (enter t assign vars) := by
  simp only [enter]
  cases assign with
  | false => rfl
  | true =>
    simp only [if_true]
    cases assign? var.1 var.2 bindings <;> rfl

namespace Effect

/-- Run with variables bound or assigned and with another dot, if one is given; afterwards the dot is
the same as before and the variables that were bound are given up. -/
def scope (t : Tables) (assign : Bool) (vars : List (Nat × Value)) (dot : Option Value)
    (D : Effect) : Effect := fun m o =>
  match Bindings.enter t assign vars m.bindings with
  | .error e => fail e m o
  | .ok bindings =>
    ∃ r, D { m with dot := dot.getD m.dot, bindings := bindings } r ∧
      o = r.map fun m' => { m'.forget (if assign then 0 else vars.length) with dot := m.dot }

end Effect

/-- Binding adds the variables, and assigning keeps those there are. -/
theorem Bindings.map_fst_enter {t : Tables} {assign : Bool} {vars bindings after : List (Nat × Value)}
    (h : enter t assign vars bindings = .ok after) :
    after.map Prod.fst =
      (if assign then [] else (vars.map Prod.fst).reverse) ++ bindings.map Prod.fst := by
  induction vars generalizing bindings with
  | nil =>
    cases h
    simp
  | cons var vars ih =>
    rw [enter] at h
    cases assign with
    | true =>
      simp only [if_true] at h ih ⊢
      split at h
      · cases h
      · next hassign => rw [ih h, Machine.map_fst_assign? hassign]
    | false =>
      simp only [Bool.false_eq_true, if_false] at h ih ⊢
      rw [ih h]
      simp

/-- Entering a template fails ordinarily. -/
theorem Bindings.ordinary_enter {t : Tables} {assign : Bool} {vars bindings : List (Nat × Value)}
    {e : RuntimeError} (h : enter t assign vars bindings = .error e) : e.Ordinary := by
  induction vars generalizing bindings with
  | nil => cases h
  | cons var vars ih =>
    rw [enter] at h
    split at h
    · split at h
      · cases h
        trivial
      · exact ih h
    · exact ih h

namespace Effect

variable {D : Effect} {t : Tables} {assign : Bool} {vars : List (Nat × Value)} {dot : Option Value}

/-- What is done in a scope does not depend on the stacks either. -/
theorem Local.scope (hD : Local D) : Local (D.scope t assign vars dot) where
  frame {m m'} h := by
    unfold Effect.scope at h
    split at h
    · cases h
    · obtain ⟨r, hr, ho⟩ := h
      cases r with
      | failed => cases ho
      | done m₁ =>
        cases ho
        have hframe := hD.frame hr
        exact hframe
  within {m o} h F := by
    unfold Effect.scope at h ⊢
    have hbindings : (m.within F).bindings = m.bindings := rfl
    rw [hbindings]
    split at h
    · cases h
      rfl
    · obtain ⟨r, hr, rfl⟩ := h
      refine ⟨r.map (·.within F), hD.within hr F, ?_⟩
      simp only [Outcome.map_map]
      rfl

/-- A scope gives up the variables that are bound in it. -/
theorem Neutral.scope (hD : Neutral D []) : Neutral (D.scope t assign vars dot) [] where
  toLocal := hD.toLocal.scope
  dot {m m'} h := by
    unfold Effect.scope at h
    split at h
    · cases h
    · obtain ⟨r, hr, ho⟩ := h
      cases r <;> cases ho
      rfl
  names {m m'} h := by
    unfold Effect.scope at h
    split at h
    · cases h
    · next bindings henter =>
      obtain ⟨r, hr, ho⟩ := h
      cases r with
      | failed => cases ho
      | done m₁ =>
        cases ho
        have hnames : m₁.names = bindings.map Prod.fst := hD.names hr
        have hdrop : (m₁.bindings.drop (if assign then 0 else vars.length)).map Prod.fst =
            m₁.names.drop (if assign then 0 else vars.length) := List.map_drop
        rw [hnames, Bindings.map_fst_enter henter] at hdrop
        simp only [Machine.names, Machine.forget, hdrop]
        cases assign <;> simp
  ordinary {m e sink streams} h := by
    unfold Effect.scope at h
    split at h
    · next e' henter =>
      cases h
      exact Bindings.ordinary_enter henter
    · obtain ⟨r, hr, ho⟩ := h
      cases r <;> cases ho
      exact hD.ordinary hr

end Effect

namespace Env

variable {env : Env} {code : List Instr} {pop : Option Nat} {m l : Machine} {o : Outcome}

/-- Removing the innermost variables one after the other gives up all of them. -/
theorem runs_unsetCode {names rest : List Nat} (hnames : m.names = names ++ rest) (o : Outcome) :
    env.Runs (Compile.unsetCode names) m o ↔ o = .done (m.forget names.length) := by
  induction names generalizing m with
  | nil =>
    rw [Compile.unsetCode, List.map_nil, runs_nil]
    simp only [Effect.skip, Machine.forget, List.length_nil, List.drop_zero]
  | cons name names ih =>
    obtain ⟨⟨name', v⟩, bindings, hbindings, hname, hrest⟩ :=
      List.map_eq_cons_iff.mp (show m.bindings.map Prod.fst = name :: (names ++ rest) from hnames)
    obtain rfl : name' = name := hname
    have hdo : m.step env.schema env.tables (.unsetVar name') =
        .next { m with bindings := bindings } := by
      simp only [Machine.step, hbindings, Bindings.remove?_cons_self]
    have hothers := ih (m := { m with bindings := bindings }) hrest
    have hforget : m.forget (name' :: names).length =
        Machine.forget names.length { m with bindings := bindings } := by
      simp only [Machine.forget, hbindings, List.length_cons, List.drop_succ_cons]
    rw [hforget, ← hothers]
    exact runs_cons_of_step env (r := .done { m with bindings := bindings }) rfl (by simp)
      (by rw [hdo]; rfl) (Compile.closed_unsetCode names) o

/-- Removing the innermost variables behind some effect gives them up. -/
theorem andThen_unsetCode {D : Effect} {names : List Nat}
    (hnames : ∀ m', D m (.done m') → ∃ rest, m'.names = names ++ rest) :
    D.andThen (env.Runs (Compile.unsetCode names)) m o ↔
      ∃ r, D m r ∧ o = r.map (Machine.forget names.length) := by
  constructor
  · intro h
    rcases h with ⟨m₁, hrun, hunset⟩ | ⟨ho, hrun⟩
    · obtain ⟨rest, hrest⟩ := hnames m₁ hrun
      exact ⟨_, hrun, (runs_unsetCode hrest o).mp hunset⟩
    · refine ⟨o, hrun, ?_⟩
      cases o with
      | done => exact ho.elim
      | failed => rfl
  · rintro ⟨r, hrun, ho⟩
    cases r with
    | done m₁ =>
      obtain ⟨rest, hrest⟩ := hnames m₁ hrun
      exact Or.inl ⟨m₁, hrun, (runs_unsetCode hrest o).mpr ho⟩
    | failed e sink streams =>
      rw [ho]
      exact Or.inr ⟨trivial, hrun⟩

/-- Neutral code whose variables are ended gives them up when it succeeds. -/
theorem runs_append_unsetCode {names : List Nat} (hcode : Closed code)
    (hneutral : (env.Runs code).Neutral names) :
    env.Runs (code ++ Compile.unsetCode names) m o ↔
      ∃ r, env.Runs code m r ∧ o = r.map (Machine.forget names.length) := by
  rw [runs_append hcode (Compile.closed_unsetCode names)]
  exact andThen_unsetCode fun m' hrun => ⟨m.names, hneutral.names hrun⟩

/-- The body of a branch gives up the variables that it declares. -/
theorem neutral_append_unsetCode {names : List Nat} (hcode : Closed code)
    (hneutral : (env.Runs code).Neutral names) :
    (env.Runs (code ++ Compile.unsetCode names)).Neutral [] where
  frame {m m'} h := by
    obtain ⟨r, hrun, ho⟩ := (runs_append_unsetCode hcode hneutral).mp h
    cases r <;> cases ho
    have hframe := hneutral.frame hrun
    exact hframe
  within {m o} h F := by
    obtain ⟨r, hrun, rfl⟩ := (runs_append_unsetCode hcode hneutral).mp h
    refine (runs_append_unsetCode hcode hneutral).mpr ⟨_, hneutral.within hrun F, ?_⟩
    rw [Outcome.map_map, Outcome.map_map]
    rfl
  dot {m m'} h := by
    obtain ⟨r, hrun, ho⟩ := (runs_append_unsetCode hcode hneutral).mp h
    cases r <;> cases ho
    have hdot := hneutral.dot hrun
    exact hdot
  names {m m'} h := by
    obtain ⟨r, hrun, ho⟩ := (runs_append_unsetCode hcode hneutral).mp h
    cases r with
    | failed => cases ho
    | done m₁ =>
      cases ho
      have hdrop : (m₁.forget names.length).names = m₁.names.drop names.length := List.map_drop
      rw [hdrop, hneutral.names hrun, List.drop_left, List.nil_append]
  ordinary {m e sink streams} h := by
    obtain ⟨r, hrun, ho⟩ := (runs_append_unsetCode hcode hneutral).mp h
    cases r <;> cases ho
    exact hneutral.ordinary hrun

end Env
end Stencil
