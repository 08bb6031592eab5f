import Stencil.Proofs.Layout

/-!
# Congruence of layouts

The code around the bodies of a branch refers to nothing but names, so a branch does the same in two
programs that give its bodies the same effect.
-/

namespace Stencil

/-- Whether an instruction belongs to the code around the bodies of a branch and does not jump. -/
def Instr.isControl : Instr → Bool
  | mark | pop _ | iter | setVar .. | unsetVar _ | pushDot | popDot => true
  | _ => false

/-- A control instruction does not jump. -/
theorem Instr.distance?_of_isControl {i : Instr} (hi : i.isControl) : i.distance? = none := by
  cases i <;> first | rfl | cases hi

namespace Env

/-- Whether two programs have the same schema and the same names. -/
structure Similar (env env' : Env) : Prop where
  schema : env.schema = env'.schema
  strings : env.tables.strings = env'.tables.strings

variable {env env' : Env} {body body' : List Instr} {orElse orElse' : Option (List Instr)}
  {decl : List Nat} {assign : Bool} {pop : Option Nat}

/-- A control instruction does the same in programs that are similar. -/
theorem instr_congr (hsimilar : env.Similar env') {i : Instr} (hi : i.isControl) :
    env.instr i = env'.instr i := by
  have hunbound : Machine.unbound env.tables = Machine.unbound env'.tables := by
    funext name
    rw [Machine.unbound, Machine.unbound, hsimilar.strings]
  funext m o
  cases i with
  | setVar name assign => simp only [instr, Machine.step, hunbound]
  | unsetVar name => simp only [instr, Machine.step, hunbound]
  | pop n => cases n <;> rfl
  | mark | iter | pushDot | popDot => rfl
  | _ => cases hi

/-- Control instructions do the same in programs that are similar. -/
theorem runs_control_congr (hsimilar : env.Similar env') {code : List Instr}
    (hcode : ∀ i ∈ code, i.isControl) : env.Runs code = env'.Runs code := by
  induction code with
  | nil => rw [runs_nil, runs_nil]
  | cons i code ih =>
    have hi : i.isControl := hcode i List.mem_cons_self
    have hrest : ∀ j ∈ code, j.isControl := fun j hj => hcode j (List.mem_cons_of_mem i hj)
    have hclosed : Closed code :=
      closed_of_distance? fun j hj => Instr.distance?_of_isControl (hrest j hj)
    rw [runs_cons (Instr.distance?_of_isControl hi) hclosed,
      runs_cons (Instr.distance?_of_isControl hi) hclosed, instr_congr hsimilar hi, ih hrest]

/-- Control instructions are closed code. -/
theorem closed_of_isControl {code : List Instr} (hcode : ∀ i ∈ code, i.isControl) : Closed code :=
  closed_of_distance? fun i hi => Instr.distance?_of_isControl (hcode i hi)

/-- Control code in front of and behind code keeps its effect. -/
theorem runs_between_congr (hsimilar : env.Similar env') (front rest : List Instr)
    (hfront : ∀ i ∈ front, i.isControl) (hrest : ∀ i ∈ rest, i.isControl) (hbody : Closed body)
    (hbody' : Closed body') (hruns : env.Runs body = env'.Runs body') :
    env.Runs (front ++ body ++ rest) = env'.Runs (front ++ body' ++ rest) := by
  have hclosed := closed_of_isControl hfront
  have hclosed' := closed_of_isControl hrest
  rw [runs_append (hclosed.append hbody) hclosed', runs_append (hclosed.append hbody') hclosed',
    runs_append hclosed hbody, runs_append hclosed hbody', hruns, runs_control_congr hsimilar hfront,
    runs_control_congr hsimilar hrest]

/-- A `POP` that may be missing is a control instruction. -/
theorem isControl_popCode (pop : Option Nat) : ∀ i ∈ Compile.popCode pop, i.isControl := by
  intro i hi
  cases pop with
  | none => cases hi
  | some n =>
    rw [List.mem_singleton.mp hi]
    rfl

/-- Ending variables takes control instructions. -/
theorem isControl_unsetCode (names : List Nat) : ∀ i ∈ Compile.unsetCode names, i.isControl := by
  intro i hi
  obtain ⟨name, -, rfl⟩ := List.mem_map.mp hi
  rfl

/-- Binding variables takes control instructions. -/
theorem isControl_bindCode (assign : Bool) (decl : List Nat) :
    ∀ i ∈ Compile.bindCode assign decl, i.isControl := by
  rcases decl with _ | ⟨_, _ | ⟨_, _⟩⟩ <;> simp [Compile.bindCode, Instr.isControl]

/-- Ending variables, unless they are assigned, takes control instructions. -/
theorem isControl_unset (assign : Bool) (names : List Nat) :
    ∀ i ∈ (if assign then [] else Compile.unsetCode names), i.isControl := by
  cases assign with
  | true => exact fun i hi => nomatch hi
  | false => exact isControl_unsetCode names

/-- Code that binds variables around a body does the same in similar programs if the body does. -/
theorem runs_boundCode_congr (hsimilar : env.Similar env') (hbody : Closed body)
    (hbody' : Closed body') (hruns : env.Runs body = env'.Runs body') :
    env.Runs (Compile.boundCode assign decl pop body) =
      env'.Runs (Compile.boundCode assign decl pop body') := by
  cases decl with
  | nil => exact hruns
  | cons name names =>
    have hrest : ∀ i ∈ (if assign then [] else Compile.unsetCode [name]) ++
        Compile.popCode (Compile.boundPop pop), i.isControl :=
      List.forall_mem_append.mpr ⟨isControl_unset assign [name], isControl_popCode _⟩
    have hcongr := runs_between_congr hsimilar [.setVar name assign] _ (by simp [Instr.isControl]) hrest
      hbody hbody' hruns
    rwa [← List.append_assoc, ← List.append_assoc] at hcongr

/-- A turn of a loop does the same in similar programs if its body does. -/
theorem runs_turnCode_congr (hsimilar : env.Similar env') (hbody : Closed body)
    (hbody' : Closed body') (hruns : env.Runs body = env'.Runs body') :
    env.Runs (Compile.turnCode assign decl body) = env'.Runs (Compile.turnCode assign decl body') := by
  have hfront : ∀ i ∈ .pushDot :: Compile.bindCode assign decl, i.isControl :=
    List.forall_mem_cons.mpr ⟨rfl, isControl_bindCode assign decl⟩
  have hrest : ∀ i ∈ (if assign then [] else Compile.unsetCode decl) ++ [.popDot], i.isControl :=
    List.forall_mem_append.mpr ⟨isControl_unset assign decl, by simp [Instr.isControl]⟩
  have hcongr := runs_between_congr hsimilar _ _ hfront hrest hbody hbody' hruns
  rwa [← List.append_assoc, ← List.append_assoc] at hcongr

/-- The other way through a branch does the same in similar programs if its alternative does. -/
theorem runs_otherCode_congr (hsimilar : env.Similar env') (horElse : Closed (orElse.getD []))
    (horElse' : Closed (orElse'.getD []))
    (hruns : env.Runs (orElse.getD []) = env'.Runs (orElse'.getD [])) :
    env.Runs ((Compile.otherCode decl pop orElse).getD []) =
      env'.Runs ((Compile.otherCode decl pop orElse').getD []) := by
  have hpop : ∀ i ∈ (if decl.isEmpty then [] else Compile.popCode pop), i.isControl := by
    split
    · exact fun i hi => nomatch hi
    · exact isControl_popCode pop
  rw [Compile.getD_otherCode, Compile.getD_otherCode]
  exact runs_between_congr hsimilar [] _ (fun i hi => nomatch hi) hpop horElse horElse' hruns

/-- A branch does the same when its bodies do. -/
theorem runs_branchCode_congr (hsimilar : env.Similar env') (kind : BranchKind) (hbody : Closed body)
    (hbody' : Closed body') (hruns : env.Runs body = env'.Runs body')
    (horElse : Closed (orElse.getD [])) (horElse' : Closed (orElse'.getD []))
    (helse : env.Runs (orElse.getD []) = env'.Runs (orElse'.getD [])) :
    env.Runs (Compile.branchCode kind assign decl pop body orElse) =
      env'.Runs (Compile.branchCode kind assign decl pop body' orElse') := by
  have hbound := Compile.closed_boundCode assign decl pop hbody
  have hbound' := Compile.closed_boundCode assign decl pop hbody'
  have hother := Compile.closed_otherCode decl pop horElse
  have hother' := Compile.closed_otherCode decl pop horElse'
  have hconditional {taken taken' : List Instr} (htaken : Closed taken) (htaken' : Closed taken')
      (h : env.Runs taken = env'.Runs taken') :
      env.Runs (Compile.conditionalCode taken (Compile.otherCode decl pop orElse) ++
          Compile.popCode (Compile.lastPop decl pop)) =
        env'.Runs (Compile.conditionalCode taken' (Compile.otherCode decl pop orElse') ++
          Compile.popCode (Compile.lastPop decl pop)) := by
    have hcode : env.Runs (Compile.conditionalCode taken (Compile.otherCode decl pop orElse)) =
        env'.Runs (Compile.conditionalCode taken' (Compile.otherCode decl pop orElse')) := by
      rw [Compile.runs_conditionalCode htaken hother, Compile.runs_conditionalCode htaken' hother', h,
        runs_otherCode_congr hsimilar horElse horElse' helse]
    exact runs_between_congr hsimilar [] _ (fun i hi => nomatch hi) (isControl_popCode _)
      (Compile.closed_conditionalCode htaken hother) (Compile.closed_conditionalCode htaken' hother')
      hcode
  cases kind with
  | ifThen => exact hconditional hbound hbound' (runs_boundCode_congr hsimilar hbody hbody' hruns)
  | withDot =>
    have hpopDot : Closed [Instr.popDot] := closed_cons rfl closed_nil
    refine hconditional (closed_cons rfl (hbound.append hpopDot))
      (closed_cons rfl (hbound'.append hpopDot)) ?_
    exact runs_between_congr hsimilar [.pushDot] [.popDot] (by simp [Instr.isControl])
      (by simp [Instr.isControl]) hbound hbound' (runs_boundCode_congr hsimilar hbody hbody' hruns)
  | range =>
    have hturn := Compile.closed_turnCode assign decl hbody
    have hturn' := Compile.closed_turnCode assign decl hbody'
    have hcode : env.Runs (Compile.loopCode (Compile.turnCode assign decl body) orElse) =
        env'.Runs (Compile.loopCode (Compile.turnCode assign decl body') orElse') := by
      rw [Compile.runs_loopCode hturn horElse, Compile.runs_loopCode hturn' horElse',
        runs_turnCode_congr hsimilar hbody hbody' hruns, helse]
    exact runs_between_congr hsimilar [.iter] _ (by simp [Instr.isControl]) (isControl_popCode pop)
      (Compile.closed_loopCode hturn horElse) (Compile.closed_loopCode hturn' horElse') hcode

end Env
end Stencil
