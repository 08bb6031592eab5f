import Stencil.Proofs.Branches
import Stencil.Proofs.Congruence
import Stencil.Proofs.Growth
import Stencil.TemplateSet

/-!
# Statements

What the code of a statement does: it leaves the stacks as they were if the templates it calls do.
Compiled code only calls templates of its set, and only with data on the stack, so nothing else has
to be known about calls.
-/

namespace Stencil

namespace Env

/-- Whether a call names a template of a set. -/
structure Names (env : Env) (set : TemplateSet) (ns name : Nat) : Prop where
  ns : ns < env.tables.strings.size
  name : ∃ target, env.tables.strings[name]? = some target ∧ set.contains target

/-- The same program, in which calls are only made as compiled code makes them. -/
def careful (env : Env) (set : TemplateSet) : Env :=
  { env with call := fun ns name m o => env.Names set ns name ∧ m.stack ≠ [] ∧ env.call ns name m o }

/-- Whether calls of the templates of a set leave the stacks as they were and depend on nothing but
the data they are passed. -/
def CallsNeutral (env : Env) (set : TemplateSet) : Prop :=
  ∀ ns name, env.Names set ns name → ∃ C : Value → Effect, (∀ v, (C v).Neutral []) ∧
    ∀ m v o, m.stack.head? = some v → (env.call ns name m o ↔ C v m o)

end Env

/-- Whether code leaves the stacks as they were and declares the given variables, the last one first,
in every program with these tables whose templates leave the stacks as they were. -/
structure Behaves (set : TemplateSet) (t : Tables) (code : List Instr) (names : List Nat) : Prop where
  closed : Closed code
  neutral : ∀ env : Env, t.Extends env.tables → env.CallsNeutral set → (env.Runs code).Neutral names
  careful : ∀ env : Env, t.Extends env.tables → env.Runs code = (env.careful set).Runs code

/-- Code that behaves does so in tables that grow from its own. -/
theorem Behaves.mono {set : TemplateSet} {t t' : Tables} {code : List Instr} {names : List Nat}
    (h : Behaves set t code names) (hextends : t.Extends t') : Behaves set t' code names where
  closed := h.closed
  neutral env henv := h.neutral env (hextends.trans henv)
  careful env henv := h.careful env (hextends.trans henv)

namespace Env

variable {env : Env} {set : TemplateSet} {code condition : List Instr} {pop : Option Nat}
  {ns name : Nat} {m : Machine} {o : Outcome}

/-- Being careful about calls changes nothing else. -/
theorem similar_careful (env : Env) (set : TemplateSet) : env.Similar (env.careful set) := ⟨rfl, rfl⟩

/-- Balanced code is neutral. -/
theorem neutral_balanced {after : Nat} (hcode : Straight code) (hleaves : Leaves code 0 after)
    (hbalances : Fragment.Balances pop code) (hvalid : ∀ i ∈ code, i.Valid env.tables) :
    (env.Runs (Fragment.holdCode pop ++ code ++ Compile.popCode pop)).Neutral (declaredBy code) where
  frame {m m'} h := by
    rw [runs_balanced hcode hleaves hbalances, eq_comm, Outcome.map_eq_done_iff] at h
    obtain ⟨l, -, rfl⟩ := h
    rfl
  within {m o} h F := by
    rw [runs_balanced hcode hleaves hbalances] at h ⊢
    rw [h, Machine.bare_within, Outcome.map_map]
    rfl
  dot {m m'} h := by
    rw [runs_balanced hcode hleaves hbalances, eq_comm, Outcome.map_eq_done_iff] at h
    obtain ⟨l, hsteps, rfl⟩ := h
    exact (Machine.follows_steps hcode hsteps).dot
  names {m m'} h := by
    rw [runs_balanced hcode hleaves hbalances, eq_comm, Outcome.map_eq_done_iff] at h
    obtain ⟨l, hsteps, rfl⟩ := h
    exact (Machine.follows_steps hcode hsteps).names
  ordinary {m e sink streams} h := by
    rw [runs_balanced hcode hleaves hbalances, eq_comm, Outcome.map_eq_failed_iff] at h
    exact Machine.ordinary_steps hcode hvalid hleaves (Nat.zero_le _) h

/-- A call and the `POP` behind it are closed code. -/
theorem closed_call (ns name : Nat) (pop : Option Nat) :
    Closed (.template ns name :: Compile.popCode pop) :=
  closed_cons rfl (Compile.closed_popCode pop)

/-- A template call evaluates its data and does what the template does. -/
theorem runs_call {after : Nat} {C : Value → Effect} (hcode : Straight condition)
    (hleaves : Leaves condition 0 after) (hafter : 0 < after)
    (hbalances : Fragment.Balances pop condition) (hC : ∀ v, (C v).Local)
    (hcall : ∀ m v o, m.stack.head? = some v → (env.call ns name m o ↔ C v m o)) :
    env.Runs (Fragment.holdCode pop ++ condition ++ .template ns name :: Compile.popCode pop) m o ↔
      Effect.evaluate env.schema env.tables condition C m o := by
  apply runs_evaluate hcode hleaves hafter hbalances (closed_call ns name pop)
  intro l v stack hstack hfits
  have htop : (l.above (m.frame.held pop)).stack.head? = some v := by
    rw [Machine.stack_above, hstack, List.cons_append, List.head?_cons]
  have hinstr (r : Outcome) : env.instr (.template ns name) (l.above (m.frame.held pop)) r ↔
      C v (l.above (m.frame.held pop)) r := hcall _ v r htop
  rw [runs_cons rfl (Compile.closed_popCode pop), Effect.andThen_congr_left hinstr]
  exact andThen_popCode (hC v) m.frame hfits

/-- A template call is made with data on the stack. -/
theorem runs_call_careful {after : Nat} (hcode : Straight condition)
    (hleaves : Leaves condition 0 after) (hafter : 0 < after) (hnames : env.Names set ns name) :
    env.Runs (Fragment.holdCode pop ++ condition ++ .template ns name :: Compile.popCode pop) =
      (env.careful set).Runs
        (Fragment.holdCode pop ++ condition ++ .template ns name :: Compile.popCode pop) := by
  have hfront := (closed_holdCode pop).append hcode.closed
  have hcall := closed_call ns name pop
  have hpop := Compile.closed_popCode pop
  funext m o
  apply propext
  rw [runs_append hfront hcall, runs_append hfront hcall,
    Effect.andThen_of_eq fun _ => runs_held hcode hleaves,
    Effect.andThen_of_eq fun _ => (env.careful set).runs_held hcode hleaves]
  have hsame : m.bare.steps (env.careful set).schema (env.careful set).tables condition =
      m.bare.steps env.schema env.tables condition := rfl
  rw [hsame]
  cases hsteps : m.bare.steps env.schema env.tables condition with
  | failed e sink streams => exact Iff.rfl
  | done l =>
    have hlength := Machine.le_length_steps hcode hleaves (Nat.zero_le _) hsteps
    have hdata : (l.above (m.frame.held pop)).stack ≠ [] := by
      rw [Machine.stack_above]
      intro hnil
      rw [(List.append_eq_nil_iff.mp hnil).1] at hlength
      simp at hlength
      omega
    have hinstr (r : Outcome) : env.instr (.template ns name) (l.above (m.frame.held pop)) r ↔
        (env.careful set).instr (.template ns name) (l.above (m.frame.held pop)) r :=
      ⟨fun h => ⟨hnames, hdata, h⟩, fun h => h.2.2⟩
    rw [Outcome.map_done, Effect.proceed, Effect.proceed, runs_cons rfl hpop, runs_cons rfl hpop,
      Effect.andThen_congr_left hinstr,
      runs_control_congr (env.similar_careful set) (isControl_popCode pop)]

end Env
end Stencil
