import Stencil.Proofs.Actions

/-!
# Compiled branches

The parts of a compiled branch and how they make up its code. The bodies are statements that give up
the variables they declare, so the branch is a statement too: it evaluates its condition and does what
the condition selects.
-/

namespace Stencil

namespace Compile

variable {c : Context} {pos : Pos} {s s' : State} {f f' : Fragment}

/-- The body of a branch is a statement that gives up the variables it declares. -/
theorem ensures_inScope {x : M Fragment}
    (h : Ensures x { s with declared := [] } (AddsStatement c .empty { s with declared := [] })) :
    Ensures (inScope x) s fun f s' => Statement c s s' f.instrs [] := by
  refine ensures_get_bind (ensures_modify_bind (.bind h fun f s₁ hf => ?_))
  refine ensures_get_bind (ensures_modify_bind (ensures_pure ?_))
  obtain ⟨code, names, hcode, hstatement⟩ := hf
  have hcode : f.instrs = code := hcode
  have hnames : s₁.declared = names := by rw [hstatement.declared, List.append_nil]
  rw [instrs_unsetAll, hcode, hnames]
  exact {
    extends_ := hstatement.extends_
    sound := hstatement.sound
    noPrint := hstatement.noPrint
    declared := rfl
    closed := hstatement.closed.append (closed_unsetCode names)
    neutral := fun env hextends hcalls =>
      Env.neutral_append_unsetCode hstatement.closed (hstatement.neutral env hextends hcalls)
    careful := fun env hextends =>
      Env.runs_between_congr (env.similar_careful c.set) [] _ (fun i hi => nomatch hi)
        (Env.isControl_unsetCode names) hstatement.closed hstatement.closed
        (hstatement.careful env hextends) }

/-- The indices of variables are those of their names. -/
theorem ensures_internAll (decl : List Variable) :
    Ensures (internAll c decl) s fun indices s' => Grows s s' ∧ indices.length = decl.length ∧
      (s.tables.Sound → indices.map (s'.tables.strings[·]?) = decl.map fun v => some v.name) := by
  induction decl generalizing s with
  | nil => exact ensures_pure ⟨.refl s, rfl, fun _ => rfl⟩
  | cons v rest ih =>
    refine .bind (ensures_intern v.name) fun index s₁ hindex => ?_
    refine .bind (ih) fun indices s₂ hrest => ensures_pure ?_
    obtain ⟨hgrows, hlength, hnames⟩ := hrest
    refine ⟨hindex.1.trans hgrows, by simp [hlength], fun hs => ?_⟩
    have hs₁ := hindex.1.sound hs
    rw [List.map_cons, List.map_cons, hnames hs₁, hgrows.extends_.strings _ _ (hindex.2 hs₁)]

/-- The steps in which a branch is compiled, from the state `s` to the state `s'`, and the parts that
they give. -/
structure BranchSteps (c : Context) (kind : BranchKind) (pipe : Pipeline) (body : Block Node)
    (orElse : Option (Block Node)) (s s' : State) where
  condition : Fragment
  taken : Fragment
  other : Option Fragment
  balanced : Fragment
  decl : List Nat
  afterCondition : State
  afterTaken : State
  afterOther : State
  compiled_condition : pipeline c false pipe s = .ok (condition, afterCondition)
  compiled_taken : inScope (return (← nodes c .empty body.nodes).mark body.pos) afterCondition =
    .ok (taken, afterTaken)
  compiled_other : alternative c orElse afterTaken = .ok (other, afterOther)
  balance_condition : condition.balance = .ok balanced
  compiled_decl : internAll c pipe.decl afterOther = .ok (decl, s')

namespace BranchSteps

variable {kind : BranchKind} {pipe : Pipeline} {body : Block Node} {orElse : Option (Block Node)}

/-- The code of the condition, with what holds its place on the stack. -/
def held (B : BranchSteps c kind pipe body orElse s s') : Fragment := B.balanced.takePop.1

/-- The count of the `POP` behind both ways through the branch, if there is one. -/
def pop (B : BranchSteps c kind pipe body orElse s s') : Option Nat := B.balanced.takePop.2

/-- The code of the alternative of a branch, empty if there is none. -/
def otherInstrs (B : BranchSteps c kind pipe body orElse s s') : List Instr :=
  (B.other.map Fragment.instrs).getD []

/-- The code of a branch. -/
def instrs (B : BranchSteps c kind pipe body orElse s s') : List Instr :=
  Fragment.holdCode B.pop ++ B.condition.instrs ++
    branchCode kind pipe.assign B.decl B.pop B.taken.instrs (B.other.map Fragment.instrs)

/-- A branch is compiled in one way only. -/
theorem unique {s₁ s₂ : State} (B₁ : BranchSteps c kind pipe body orElse s s₁)
    (B₂ : BranchSteps c kind pipe body orElse s s₂) : s₁ = s₂ ∧ B₁ ≍ B₂ := by
  obtain ⟨_, _, _, _, _, _, _, _, hcondition₁, htaken₁, hother₁, hbalance₁, hdecl₁⟩ := B₁
  obtain ⟨_, _, _, _, _, _, _, _, hcondition₂, htaken₂, hother₂, hbalance₂, hdecl₂⟩ := B₂
  cases hcondition₁.symm.trans hcondition₂
  cases htaken₁.symm.trans htaken₂
  cases hother₁.symm.trans hother₂
  cases hbalance₁.symm.trans hbalance₂
  cases hdecl₁.symm.trans hdecl₂
  exact ⟨rfl, .rfl⟩

/-- What is known about the parts of a branch of a well-formed template. -/
structure Sound (B : BranchSteps c kind pipe body orElse s s') : Prop where
  emits : Emits s B.afterCondition B.condition.instrs
  noPrint : B.afterCondition.noPrint = false
  leaves : Leaves B.condition.instrs 0 1
  balances : Fragment.Balances B.pop B.condition.instrs
  instrs_held : B.held.instrs = Fragment.holdCode B.pop ++ B.condition.instrs
  statement_taken : Statement c B.afterCondition B.afterTaken B.taken.instrs []
  statement_other : Statement c B.afterTaken B.afterOther B.otherInstrs []
  grows : Grows B.afterOther s'
  length_decl : B.decl.length = pipe.decl.length
  names_decl : B.decl.map (s'.tables.strings[·]?) = pipe.decl.map fun v => some v.name

namespace Sound

variable {B : BranchSteps c kind pipe body orElse s s'} (hB : B.Sound)
include hB

/-- The tables behind the body that is taken grow to those behind the branch. -/
theorem extends_taken : B.afterTaken.tables.Extends s'.tables :=
  hB.statement_other.extends_.trans hB.grows.extends_

/-- The tables behind the condition grow to those behind the branch. -/
theorem extends_condition : B.afterCondition.tables.Extends s'.tables :=
  hB.statement_taken.extends_.trans hB.extends_taken

/-- The code of a branch is closed. -/
theorem closed : Closed B.instrs :=
  ((Env.closed_holdCode B.pop).append hB.emits.straight.closed).append
    (closed_branchCode kind pipe.assign B.decl B.pop hB.statement_taken.closed hB.statement_other.closed)

/-- A branch evaluates its condition and does what it selects. -/
theorem runs_instrs (hdecl : pipe.decl.length ≤ kind.vars) {env : Env}
    (hextends : s'.tables.Extends env.tables) (hcalls : env.CallsNeutral c.set) :
    env.Runs B.instrs = Effect.evaluate env.schema env.tables B.condition.instrs
      (Effect.branch env.tables kind pipe.assign B.decl (env.Runs B.taken.instrs)
        (env.Runs B.otherInstrs)) := by
  funext m o
  apply propext
  refine Env.runs_branch hB.emits.straight hB.leaves Nat.one_pos hB.balances ?_
    hB.statement_taken.closed
    (hB.statement_taken.neutral env (hB.extends_taken.trans hextends) hcalls)
    hB.statement_other.closed
    (hB.statement_other.neutral env (hB.grows.extends_.trans hextends) hcalls)
  rw [hB.length_decl]
  cases kind <;> exact hdecl

/-- A branch is a statement that declares the variables of its condition. -/
theorem statement (hdecl : pipe.decl.length ≤ kind.vars) (hs : s.tables.Sound) :
    Statement c s s' B.instrs (declaredBy B.condition.instrs) where
  extends_ := hB.emits.extends_.trans hB.extends_condition
  sound := hB.grows.sound hB.statement_other.sound
  noPrint := hB.grows.noPrint.trans hB.statement_other.noPrint
  declared := by
    rw [hB.grows.declared, hB.statement_other.declared, hB.statement_taken.declared, hB.emits.declared]
    rfl
  closed := hB.closed
  neutral env hextends hcalls := by
    rw [hB.runs_instrs hdecl hextends hcalls]
    have htaken := hB.statement_taken.neutral env (hB.extends_taken.trans hextends) hcalls
    have hother := hB.statement_other.neutral env (hB.grows.extends_.trans hextends) hcalls
    exact Effect.neutral_evaluate hB.emits.straight hB.leaves
      (fun i hi => (hB.emits.valid hs i hi).mono (hB.extends_condition.trans hextends))
      fun v => Effect.neutral_branch htaken hother v
  careful env hextends := by
    have hfront := (Env.closed_holdCode B.pop).append hB.emits.straight.closed
    have hbranch := closed_branchCode kind pipe.assign B.decl B.pop hB.statement_taken.closed
      hB.statement_other.closed
    have hsimilar := env.similar_careful c.set
    have hcondition : env.Runs (Fragment.holdCode B.pop ++ B.condition.instrs) =
        (env.careful c.set).Runs (Fragment.holdCode B.pop ++ B.condition.instrs) := by
      funext m o
      rw [Env.runs_held hB.emits.straight hB.leaves, Env.runs_held hB.emits.straight hB.leaves]
      rfl
    rw [instrs, Env.runs_append hfront hbranch, Env.runs_append hfront hbranch, hcondition,
      Env.runs_branchCode_congr hsimilar kind hB.statement_taken.closed hB.statement_taken.closed
        (hB.statement_taken.careful env (hB.extends_taken.trans hextends)) hB.statement_other.closed
        hB.statement_other.closed
        (hB.statement_other.careful env (hB.grows.extends_.trans hextends))]

end Sound

end BranchSteps

end Compile
end Stencil
