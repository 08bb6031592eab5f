import Stencil.Proofs.Calls
import Stencil.Proofs.Statements

/-!
# Nested calls

The templates of a program leave the stacks as they were if their code does so whenever the templates
it calls do. The argument goes by the depth of nested calls: at depth zero no call returns, and each
run of a program is a run at some depth.
-/

namespace Stencil

namespace Machine

variable (ns : String) (v : Value) (m : Machine)

/-- An activation has variables of its own on top of those of the one that made it. -/
theorem activate_eq :
    ∃ own, m.activate ns v = { m with bindings := own ++ m.bindings, dot := v } := by
  unfold activate
  simp only
  split
  · exact ⟨[(Tables.rootVar, v)], rfl⟩
  · split
    · next kind entries hvars =>
      exact ⟨[(Tables.varsVar, Value.unpackMap kind entries ns), (Tables.rootVar, v)], rfl⟩
    · exact ⟨[(Tables.rootVar, v)], rfl⟩

/-- An activation starts the same within all stacks. -/
theorem activate_within (F : Frame) : (m.within F).activate ns v = (m.activate ns v).within F := by
  unfold activate
  simp only [bind, within]
  split
  · rfl
  · split <;> rfl

/-- Returning from a call gives up the variables of the callee. -/
theorem names_leave {m after : Machine} {own : List Nat} (h : after.names = own ++ m.names) :
    (m.leave after).names = m.names := by
  have hlength : after.bindings.length - m.bindings.length = own.length := by
    have := congrArg List.length h
    simp only [names, List.length_map, List.length_append] at this
    omega
  have hdrop : (m.leave after).names = after.names.drop own.length := by
    rw [← hlength]
    exact List.map_drop
  rw [hdrop, h, List.drop_left]

end Machine

namespace Effect

variable {D : Effect} {names : List Nat}

/-- Run with the data and the namespace of a call, and return to the activation that made it. -/
def called (ns : String) (v : Value) (D : Effect) : Effect := fun m o =>
  ∃ r, D (m.activate ns v) r ∧ r.map m.leave = o

/-- A call of a neutral template is neutral, and the variables of the template are gone. -/
theorem Neutral.called (hD : D.Neutral names) (ns : String) (v : Value) :
    (D.called ns v).Neutral [] where
  frame {m m'} h := by
    obtain ⟨r, hrun, ho⟩ := h
    obtain ⟨after, rfl, rfl⟩ := Outcome.map_eq_done_iff.mp ho
    obtain ⟨own, hown⟩ := Machine.activate_eq ns v m
    have hframe := hD.frame hrun
    rw [hown] at hframe
    exact hframe
  within {m o} h F := by
    obtain ⟨r, hrun, rfl⟩ := h
    refine ⟨_, Machine.activate_within ns v m F ▸ hD.within hrun F, ?_⟩
    rw [Outcome.map_map, Outcome.map_map]
    rfl
  dot {m m'} h := by
    obtain ⟨r, hrun, ho⟩ := h
    obtain ⟨after, rfl, rfl⟩ := Outcome.map_eq_done_iff.mp ho
    rfl
  names {m m'} h := by
    obtain ⟨r, hrun, ho⟩ := h
    obtain ⟨after, rfl, rfl⟩ := Outcome.map_eq_done_iff.mp ho
    obtain ⟨own, hown⟩ := Machine.activate_eq ns v m
    have hactivate : (m.activate ns v).names = own.map Prod.fst ++ m.names := by
      rw [hown]
      exact List.map_append
    have hnames := hD.names hrun
    rw [hactivate, ← List.append_assoc] at hnames
    exact Machine.names_leave hnames
  ordinary {m e sink streams} h := by
    obtain ⟨r, hrun, ho⟩ := h
    obtain rfl := Outcome.map_eq_failed_iff.mp ho
    exact hD.ordinary hrun

/-- An effect that is one of neutral ones is neutral. -/
theorem neutral_exists {D : Nat → Effect} (hD : ∀ n, (D n).Neutral names) :
    Neutral (fun m o => ∃ n, D n m o) names where
  frame h := (hD h.choose).frame h.choose_spec
  within h F := ⟨h.choose, (hD h.choose).within h.choose_spec F⟩
  dot h := (hD h.choose).dot h.choose_spec
  names h := (hD h.choose).names h.choose_spec
  ordinary h := (hD h.choose).ordinary h.choose_spec

end Effect

namespace Program

variable {p : Program} {set : TemplateSet} {fuel : Nat} {name : String} {t : CompiledTemplate}
  {m : Machine} {o : Outcome}

/-- The program with calls nested at most so deep. -/
def level (p : Program) : Nat → Env
  | 0 => ⟨p.schema, p.tables, fun _ _ _ _ => False⟩
  | n + 1 => ⟨p.schema, p.tables, p.enter fun _ t => (p.level n).Runs t.code.toList⟩

/-- A program has the same tables at every depth. -/
theorem tables_level (p : Program) (n : Nat) : (p.level n).tables = p.tables := by
  cases n <;> rfl

/-- A program has the same schema at every depth. -/
theorem schema_level (p : Program) (n : Nat) : (p.level n).schema = p.schema := by
  cases n <;> rfl

/-- Whether a program has a template for each name of a set, and the code of each template leaves the
stacks as they were if the templates that it calls do. -/
structure Behaves (p : Program) (set : TemplateSet) : Prop where
  exists_template : ∀ name : String, set.contains name → ∃ t, p.templates[name]? = some t
  code : ∀ (name : String) (t : CompiledTemplate), p.templates[name]? = some t → ∃ names,
    Stencil.Behaves set p.tables t.code.toList names

/-- A call whose operands name a template and whose data is on the stack runs the template. -/
theorem enter_eq {run : String → CompiledTemplate → Effect} {ns index : Nat} {nsName target : String}
    {v : Value} (hns : p.tables.strings[ns]? = some nsName)
    (hname : p.tables.strings[index]? = some target) (ht : p.templates[target]? = some t)
    (hv : m.stack.head? = some v) :
    p.enter run ns index m o ↔ (run target t).called nsName v m o := by
  obtain ⟨stack, hstack⟩ := List.head?_eq_some_iff.mp hv
  have hcallee : m.callee p ns index = .ok (nsName, target, v) := by
    simp only [Machine.callee, hns, hname, hstack]
  simp only [enter, hcallee, ht, Effect.called]

/-- Calls leave the stacks as they were if the templates they run do. -/
theorem callsNeutral_of_enter {env : Env} {run : String → CompiledTemplate → Effect}
    (hp : p.Behaves set) (htables : env.tables = p.tables) (hcall : env.call = p.enter run)
    (hrun : ∀ name t names, Stencil.Behaves set p.tables t.code.toList names →
      (run name t).Neutral names) : env.CallsNeutral set := by
  intro ns index hnames
  obtain ⟨hns, target, hname, hcontains⟩ := hnames
  rw [htables] at hns hname
  obtain ⟨t, ht⟩ := hp.exists_template target hcontains
  obtain ⟨names, hbehaves⟩ := hp.code target t ht
  refine ⟨fun v => (run target t).called p.tables.strings[ns] v,
    fun v => (hrun target t names hbehaves).called _ v, fun m v o hv => ?_⟩
  rw [hcall]
  exact enter_eq (Array.getElem?_eq_getElem hns) hname ht hv

/-- Calls are neutral at every depth. -/
theorem callsNeutral_level (hp : p.Behaves set) (n : Nat) : (p.level n).CallsNeutral set := by
  induction n with
  | zero =>
    intro ns index _
    refine ⟨fun _ _ _ => False, fun _ => ?_, fun _ _ _ _ => Iff.rfl⟩
    exact { frame := fun h => h.elim, within := fun h => h.elim, dot := fun h => h.elim,
            names := fun h => h.elim, ordinary := fun h => h.elim }
  | succ n ih =>
    apply callsNeutral_of_enter hp rfl rfl
    intro name t names hbehaves
    refine hbehaves.neutral (p.level n) ?_ ih
    rw [tables_level]
    exact .refl _

/-! ### Runs of a program are runs at some depth -/

/-- A call with bounded fuel is one at a depth above it. -/
theorem call_level_of_callWithin (ns index : Nat) (m : Machine) (o : Outcome)
    (h : p.callWithin fuel ns index m o) : (p.level (fuel + 1)).call ns index m o := by
  induction fuel generalizing ns index m o with
  | zero => exact enter_mono (fun _ _ _ _ hrun => nomatch hrun) h
  | succ fuel ih =>
    refine enter_mono (fun _ t m o hrun => ?_) (callWithin_succ h)
    exact hrun.mono (p.level (fuel + 1)) rfl rfl ih

/-- A call at some depth is a call of the program. -/
theorem call_of_level {n : Nat} (ns index : Nat) (m : Machine) (o : Outcome)
    (h : (p.level n).call ns index m o) : p.call ns index m o := by
  induction n generalizing ns index m o with
  | zero => exact h.elim
  | succ n ih =>
    rw [call_eq]
    refine enter_mono (fun _ t m o hrun => ?_) h
    exact hrun.mono p.env (p.schema_level n) (p.tables_level n) ih

/-- The calls of a program are its calls at some depth. -/
theorem call_iff_exists_level {ns index : Nat} :
    p.call ns index m o ↔ ∃ n, (p.level n).call ns index m o := by
  constructor
  · intro h
    obtain ⟨fuel, hwithin⟩ := exists_callWithin h
    exact ⟨fuel + 1, call_level_of_callWithin ns index m o hwithin⟩
  · rintro ⟨n, h⟩
    exact call_of_level ns index m o h

/-- A run of a program is a run with calls nested at most so deep. -/
theorem runs_iff_exists_level (t : CompiledTemplate) :
    p.env.Runs t.code.toList m o ↔ ∃ n, (p.level n).Runs t.code.toList m o := by
  constructor
  · intro h
    have hrun : p.RunsFrom "" t 0 m o := runsFrom_of_env h
    obtain ⟨fuel, hrun⟩ := hrun
    exact ⟨fuel + 1, (runsFrom_envWithin (Nat.le_succ fuel) hrun).mono (p.level (fuel + 1)) rfl rfl
      call_level_of_callWithin⟩
  · rintro ⟨n, h⟩
    exact h.mono p.env (p.schema_level n) (p.tables_level n) call_of_level

/-- The code of a template of a program leaves the stacks as they were. -/
theorem neutral_runs (hp : p.Behaves set) {names : List Nat}
    (hbehaves : Stencil.Behaves set p.tables t.code.toList names) :
    (p.env.Runs t.code.toList).Neutral names := by
  have hruns : p.env.Runs t.code.toList = fun m o => ∃ n, (p.level n).Runs t.code.toList m o := by
    funext m o
    exact propext (runs_iff_exists_level t)
  rw [hruns]
  refine Effect.neutral_exists fun n => hbehaves.neutral (p.level n) ?_ (callsNeutral_level hp n)
  rw [tables_level]
  exact .refl _

/-- The templates of a program leave the stacks as they were. -/
theorem callsNeutral_env (hp : p.Behaves set) : p.env.CallsNeutral set :=
  callsNeutral_of_enter hp rfl p.call_eq fun _ _ _ hbehaves => neutral_runs hp hbehaves

end Program
end Stencil
