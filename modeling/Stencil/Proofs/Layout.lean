import Stencil.Compile.Branch
import Stencil.Proofs.Execution

/-!
# The layout of branches

What the code around the bodies of a branch does, from what the bodies do. The jumps of each
layout stay inside it and lead to the place they are meant for, whatever the bodies are.
-/

namespace Stencil

namespace Fragment

/-- The instructions of a fragment. -/
def instrs (f : Fragment) : List Instr := f.code.toList

/-- An empty fragment has no instructions. -/
@[simp]
theorem instrs_empty : empty.instrs = [] := rfl

/-- A pushed instruction is the last one. -/
@[simp]
theorem instrs_push (f : Fragment) (i : Instr) : (f.push i).instrs = f.instrs ++ [i] := by
  simp [instrs, push]

/-- An instruction put in front is the first one. -/
@[simp]
theorem instrs_prepend (f : Fragment) (i : Instr) : (f.prepend i).instrs = i :: f.instrs := by
  simp [instrs, prepend]

/-- The instructions of two fragments follow each other. -/
@[simp]
theorem instrs_append (f g : Fragment) : (f.append g).instrs = f.instrs ++ g.instrs := by
  simp [instrs, append]

/-- A mark is no instruction. -/
@[simp]
theorem instrs_mark (f : Fragment) (pos : Pos) : (f.mark pos).instrs = f.instrs := rfl

/-- The size of a fragment is the number of its instructions. -/
theorem size_eq_length (f : Fragment) : f.size = f.instrs.length := by simp [instrs, size]

end Fragment

namespace Compile

/-- The code of a final `POP`, if there is one. -/
def popCode (pop : Option Nat) : List Instr := (pop.map Instr.pop).toList

/-- A jump over an alternative and the alternative. -/
def alternativeCode : Option (List Instr) → List Instr
  | none => []
  | some code => .jmp code.length :: code

/-- A body that runs if the top of the stack is true, and an alternative if it is false. -/
def conditionalCode (body : List Instr) (orElse : Option (List Instr)) : List Instr :=
  .jmpf (body.length + orElse.isSome.toNat : Nat) :: (body ++ alternativeCode orElse)

/-- A body that runs for each element of the innermost iterator, and an alternative that runs if
there is none. -/
def loopCode (body : List Instr) (orElse : Option (List Instr)) : List Instr :=
  (match orElse with
    | none => [.next (body.length + 1 : Nat)]
    | some code =>
      [.next (body.length + 4 : Nat), .jmp 1, .next (body.length + 2 + code.length : Nat)]) ++
    (body ++ .jmp (-(body.length + 2 : Nat)) :: alternativeCode orElse)

/-- The code that makes the element of a range the dot and binds the variables of the range. -/
def bindCode (assign : Bool) : List Nat → List Instr
  | [] => [.pop 2]
  | [value] => [.setVar value assign, .pop 1]
  | key :: value :: _ => [.setVar value assign, .setVar key assign]

/-- The code that removes variables. -/
def unsetCode (names : List Nat) : List Instr := names.map .unsetVar

/-- One turn of a range. -/
def turnCode (assign : Bool) (decl : List Nat) (body : List Instr) : List Instr :=
  .pushDot :: (bindCode assign decl ++ body ++ (if assign then [] else unsetCode decl) ++ [.popDot])

/-- A fragment gets its `POP` at the end, if there is one. -/
@[simp]
theorem instrs_addPop (f : Fragment) (pop : Option Nat) :
    (f.addPop pop).instrs = f.instrs ++ popCode pop := by
  cases pop <;> simp [Fragment.addPop, popCode]

/-- Variables are ended at the end of a fragment. -/
@[simp]
theorem instrs_unsetAll (f : Fragment) (names : List Nat) :
    (unsetAll f names).instrs = f.instrs ++ unsetCode names := by
  induction names generalizing f with
  | nil => simp [unsetAll, unsetCode]
  | cons name names ih => simpa [unsetAll, unsetCode] using ih (f.push (.unsetVar name))

/-- The variables of an element are bound in front of a body. -/
@[simp]
theorem instrs_bindElement (assign : Bool) (decl : List Nat) (body : Fragment) :
    (bindElement assign decl body).instrs = bindCode assign decl ++ body.instrs := by
  rcases decl with _ | ⟨key, _ | ⟨value, rest⟩⟩ <;> simp [bindElement, bindCode]

/-- A branch ends with its alternative and its `POP`. -/
theorem instrs_closeBranch (f : Fragment) (parts : BranchParts) :
    (closeBranch f parts).instrs =
      f.instrs ++ alternativeCode (parts.orElse.map Fragment.instrs) ++ popCode parts.pop := by
  cases horElse : parts.orElse <;>
    simp [closeBranch, horElse, alternativeCode, Fragment.size_eq_length]

/-- The code of an if-node jumps over its body or its alternative. -/
theorem instrs_layoutIf (f : Fragment) (parts : BranchParts) :
    (layoutIf f parts).instrs =
      f.instrs ++ conditionalCode parts.body.instrs (parts.orElse.map Fragment.instrs) ++
        popCode parts.pop := by
  simp [layoutIf, instrs_closeBranch, conditionalCode, BranchParts.skip, Fragment.size_eq_length]

/-- The code of a with-node is that of an if-node whose body keeps the dot. -/
theorem instrs_layoutWith (f : Fragment) (parts : BranchParts) :
    (layoutWith f parts).instrs =
      f.instrs ++
        conditionalCode (.pushDot :: (parts.body.instrs ++ [.popDot]))
          (parts.orElse.map Fragment.instrs) ++
        popCode parts.pop := by
  simp [layoutWith, instrs_closeBranch, conditionalCode, BranchParts.skip, Fragment.size_eq_length]
  omega

/-- The code of a range is a loop behind its iterator. -/
theorem instrs_layoutRange (f : Fragment) (assign : Bool) (decl : List Nat) (parts : BranchParts) :
    (layoutRange f assign decl parts).instrs =
      f.instrs ++ .iter ::
        (loopCode (turnCode assign decl parts.body.instrs) (parts.orElse.map Fragment.instrs) ++
          popCode parts.pop) := by
  cases assign <;> cases horElse : parts.orElse <;>
    simp [layoutRange, instrs_closeBranch, loopBody, loopCode, turnCode, horElse,
      Fragment.size_eq_length] <;> omega

/-- The count of the `POP` behind a body that has consumed one value. -/
def boundPop : Option Nat → Option Nat
  | some 0 => some 0
  | some (n + 2) => some (n + 1)
  | _ => none

/-- The body of a conditional that binds its condition and pops the other values. -/
def boundCode (assign : Bool) (decl : List Nat) (pop : Option Nat) (body : List Instr) :
    List Instr :=
  match decl with
  | [] => body
  | name :: _ =>
    [.setVar name assign] ++ body ++ (if assign then [] else unsetCode [name]) ++
      popCode (boundPop pop)

/-- The alternative of a conditional, which pops the values itself if the body does. -/
def otherCode (decl : List Nat) (pop : Option Nat) (orElse : Option (List Instr)) :
    Option (List Instr) :=
  if !decl.isEmpty && pop.isSome then some (orElse.getD [] ++ popCode pop) else orElse

/-- The count of the `POP` behind a conditional. -/
def lastPop (decl : List Nat) (pop : Option Nat) : Option Nat := if decl.isEmpty then pop else none

/-- The code of a branch after the code of its condition. -/
def branchCode (kind : BranchKind) (assign : Bool) (decl : List Nat) (pop : Option Nat)
    (body : List Instr) (orElse : Option (List Instr)) : List Instr :=
  match kind with
  | .ifThen =>
    conditionalCode (boundCode assign decl pop body) (otherCode decl pop orElse) ++
      popCode (lastPop decl pop)
  | .withDot =>
    conditionalCode (.pushDot :: (boundCode assign decl pop body ++ [.popDot]))
      (otherCode decl pop orElse) ++ popCode (lastPop decl pop)
  | .range => .iter :: (loopCode (turnCode assign decl body) orElse ++ popCode pop)

/-- Binding the condition leaves the `POP` at the end only to branches without a variable. -/
theorem pop_bindCondition (assign : Bool) (decl : List Nat) (parts : BranchParts) :
    (bindCondition assign decl parts).pop = lastPop decl parts.pop := by
  cases decl <;> rfl

/-- The body of a bound condition binds and ends its variables. -/
theorem instrs_body_bindCondition (assign : Bool) (decl : List Nat) (parts : BranchParts) :
    (bindCondition assign decl parts).body.instrs =
      boundCode assign decl parts.pop parts.body.instrs := by
  cases decl with
  | nil => rfl
  | cons name names =>
    cases assign <;> rcases hpop : parts.pop with _ | _ | _ | n <;>
      simp [bindCondition, boundCode, boundPop, hpop, popCode, unsetCode, Fragment.addPop]

/-- The alternative of a bound condition pops the values itself, as the body does. -/
theorem instrs_orElse_bindCondition (assign : Bool) (decl : List Nat) (parts : BranchParts) :
    (bindCondition assign decl parts).orElse.map Fragment.instrs =
      otherCode decl parts.pop (parts.orElse.map Fragment.instrs) := by
  cases decl with
  | nil => rfl
  | cons name names =>
    cases hpop : parts.pop <;> cases horElse : parts.orElse <;>
      simp [bindCondition, otherCode, hpop, horElse, popCode, Fragment.addPop]

/-- The code of a branch is that of its condition and the layout of its kind around the bodies. -/
theorem instrs_layout (kind : BranchKind) (f : Fragment) (assign : Bool) (decl : List Nat)
    (parts : BranchParts) :
    (layout kind f assign decl parts).instrs =
      f.instrs ++ branchCode kind assign decl parts.pop parts.body.instrs
        (parts.orElse.map Fragment.instrs) := by
  cases kind with
  | ifThen =>
    simp only [layout, instrs_layoutIf, branchCode, instrs_body_bindCondition,
      instrs_orElse_bindCondition, pop_bindCondition, List.append_assoc]
  | withDot =>
    simp only [layout, instrs_layoutWith, branchCode, instrs_body_bindCondition,
      instrs_orElse_bindCondition, pop_bindCondition, List.append_assoc]
  | range => simp only [layout, instrs_layoutRange, branchCode]

/-- The other way through a branch is the alternative and the `POP` that the body has as well. -/
theorem getD_otherCode (decl : List Nat) (pop : Option Nat) (orElse : Option (List Instr)) :
    (otherCode decl pop orElse).getD [] =
      orElse.getD [] ++ if decl.isEmpty then [] else popCode pop := by
  cases decl <;> cases pop <;> simp [otherCode, popCode]

/-! ### Replaced calls -/

section

variable {φ : Instr → Instr}

/-- Calls inside an alternative may be replaced without a change to the code around it. -/
theorem map_alternativeCode (hsame : ∀ i, (∀ ns index, i ≠ .template ns index) → φ i = i)
    (orElse : Option (List Instr)) :
    (alternativeCode orElse).map φ = alternativeCode (orElse.map (List.map φ)) := by
  cases orElse <;> simp [alternativeCode, hsame]

/-- Calls inside an if-node may be replaced without a change to the code around them. -/
theorem map_conditionalCode (hsame : ∀ i, (∀ ns index, i ≠ .template ns index) → φ i = i)
    (body : List Instr) (orElse : Option (List Instr)) :
    (conditionalCode body orElse).map φ =
      conditionalCode (body.map φ) (orElse.map (List.map φ)) := by
  simp [conditionalCode, map_alternativeCode hsame, hsame]

/-- Calls inside a loop may be replaced without a change to the code around them. -/
theorem map_loopCode (hsame : ∀ i, (∀ ns index, i ≠ .template ns index) → φ i = i)
    (body : List Instr) (orElse : Option (List Instr)) :
    (loopCode body orElse).map φ = loopCode (body.map φ) (orElse.map (List.map φ)) := by
  cases orElse <;> simp [loopCode, map_alternativeCode hsame, hsame]

end

/-! ### Jumps stay inside -/

/-- The jump in front of an alternative leads behind it. -/
theorem jumpsWithin_alternativeCode {before behind : Nat} {orElse : Option (List Instr)}
    (horElse : Closed (orElse.getD [])) :
    JumpsWithin before behind (alternativeCode orElse) := by
  cases orElse with
  | none => exact closed_nil.jumpsWithin before behind
  | some code =>
    refine .cons (fun k hk => ?_) (horElse.jumpsWithin (before + 1) behind)
    cases hk
    omega

/-- An alternative takes its own code and the jump over it. -/
theorem length_alternativeCode (orElse : Option (List Instr)) :
    (alternativeCode orElse).length = orElse.isSome.toNat + (orElse.getD []).length := by
  cases orElse <;> simp [alternativeCode, Nat.add_comm]

/-- The code of an if-node is closed if its bodies are. -/
theorem closed_conditionalCode {body : List Instr} (hbody : Closed body)
    {orElse : Option (List Instr)} (horElse : Closed (orElse.getD [])) :
    Closed (conditionalCode body orElse) := by
  rw [closed_iff_jumpsWithin]
  refine .cons (fun k hk => ?_)
    ((hbody.jumpsWithin _ _).append (jumpsWithin_alternativeCode horElse))
  cases hk
  rw [List.length_append, length_alternativeCode]
  omega

/-- The code of a loop is closed if its bodies are. -/
theorem closed_loopCode {body : List Instr} (hbody : Closed body) {orElse : Option (List Instr)}
    (horElse : Closed (orElse.getD [])) : Closed (loopCode body orElse) := by
  rw [closed_iff_jumpsWithin]
  have htail (before : Nat) (hbefore : 1 ≤ before) :
      JumpsWithin before 0 (body ++ .jmp (-(body.length + 2 : Nat)) :: alternativeCode orElse) := by
    refine (hbody.jumpsWithin _ _).append (.cons (fun k hk => ?_) (jumpsWithin_alternativeCode horElse))
    cases hk
    omega
  cases orElse with
  | none =>
    refine .cons (fun k hk => ?_) (htail 1 (by omega))
    cases hk
    simp [alternativeCode]
    omega
  | some code =>
    refine .cons (fun k hk => ?_) (.cons (fun k hk => ?_) (.cons (fun k hk => ?_) (htail 3 (by omega))))
    all_goals
      cases hk
      simp [alternativeCode]
      omega

/-- Binding variables takes closed code. -/
theorem closed_bindCode (assign : Bool) (decl : List Nat) : Closed (bindCode assign decl) := by
  apply closed_of_distance?
  intro i hi
  rcases decl with _ | ⟨_, _ | ⟨_, _⟩⟩ <;> simp [bindCode] at hi <;>
    rcases hi with rfl | rfl <;> rfl

/-- Ending variables takes closed code. -/
theorem closed_unsetCode (names : List Nat) : Closed (unsetCode names) := by
  apply closed_of_distance?
  intro i hi
  obtain ⟨name, -, rfl⟩ := List.mem_map.mp hi
  rfl

/-- A `POP` that may be missing is closed code. -/
theorem closed_popCode (pop : Option Nat) : Closed (popCode pop) := by
  cases pop with
  | none => exact closed_nil
  | some n => exact closed_cons rfl closed_nil

/-- A turn is closed if its body is. -/
theorem closed_turnCode (assign : Bool) (decl : List Nat) {body : List Instr} (hbody : Closed body) :
    Closed (turnCode assign decl body) := by
  refine closed_cons rfl ((((closed_bindCode assign decl).append hbody).append ?_).append
    (closed_cons rfl closed_nil))
  cases assign
  · exact closed_unsetCode decl
  · exact closed_nil

/-- A body with its variables is closed if it is without them. -/
theorem closed_boundCode (assign : Bool) (decl : List Nat) (pop : Option Nat) {body : List Instr}
    (hbody : Closed body) : Closed (boundCode assign decl pop body) := by
  cases decl with
  | nil => exact hbody
  | cons name names =>
    have hunset : Closed (if assign then [] else unsetCode [name]) := by
      cases assign
      · exact closed_unsetCode [name]
      · exact closed_nil
    exact (((closed_cons rfl closed_nil).append hbody).append hunset).append (closed_popCode _)

/-- The other way through a branch is closed if the alternative is. -/
theorem closed_otherCode (decl : List Nat) (pop : Option Nat) {orElse : Option (List Instr)}
    (horElse : Closed (orElse.getD [])) : Closed ((otherCode decl pop orElse).getD []) := by
  rw [getD_otherCode]
  apply horElse.append
  split
  · exact closed_nil
  · exact closed_popCode pop

/-- The code of a branch is closed if its bodies are. -/
theorem closed_branchCode (kind : BranchKind) (assign : Bool) (decl : List Nat) (pop : Option Nat)
    {body : List Instr} (hbody : Closed body) {orElse : Option (List Instr)}
    (horElse : Closed (orElse.getD [])) :
    Closed (branchCode kind assign decl pop body orElse) := by
  have hbound := closed_boundCode assign decl pop hbody
  have hother := closed_otherCode decl pop horElse
  cases kind with
  | ifThen => exact (closed_conditionalCode hbound hother).append (closed_popCode _)
  | withDot =>
    have hdotted : Closed (.pushDot :: (boundCode assign decl pop body ++ [.popDot])) :=
      closed_cons rfl (hbound.append (closed_cons rfl closed_nil))
    exact (closed_conditionalCode hdotted hother).append (closed_popCode _)
  | range =>
    exact closed_cons rfl
      ((closed_loopCode (closed_turnCode assign decl hbody) horElse).append (closed_popCode pop))

/-! ### The effects of the layouts -/

section

variable {env : Env} {body code : List Instr}

/-- The jumps of a conditional lead to the alternative and behind it. -/
theorem runs_conditionalCode (hbody : Closed body) {orElse : Option (List Instr)}
    (horElse : Closed (orElse.getD [])) :
    env.Runs (conditionalCode body orElse) =
      (env.Runs body).choose (env.Runs (orElse.getD [])) := by
  cases orElse with
  | none =>
    have hwhole : conditionalCode body none = [.jmpf body.length] ++ body ++ [] := by
      simp [conditionalCode, alternativeCode]
    have hfalse : jumpTarget? 0 (body.length : Nat) (conditionalCode body none).length =
        some (1 + body.length) := by
      rw [jumpTarget?_eq_some_iff]
      simp [hwhole]
      omega
    have hend : env.RunsFrom (conditionalCode body none) (1 + body.length) = Effect.skip :=
      Env.runsFrom_length env (by simp [hwhole]; omega)
    have htrue : env.RunsFrom (conditionalCode body none) 1 = env.Runs body := by
      rw [Env.runsFrom_inside env _ _ 1 (1 + body.length) hbody hwhole rfl rfl, hend,
        Effect.andThen_skip]
    rw [Env.Runs, Env.runsFrom_jmpf rfl hfalse, htrue, hend, Option.getD_none, Env.runs_nil]
  | some code =>
    have hwhole : conditionalCode body (some code) =
        [.jmpf (body.length + 1 : Nat)] ++ body ++ (.jmp code.length :: code) := rfl
    have hlength : (conditionalCode body (some code)).length = body.length + 2 + code.length := by
      simp [hwhole]
      omega
    have hfalse : jumpTarget? 0 (body.length + 1 : Nat) (conditionalCode body (some code)).length =
        some (body.length + 2) := by
      rw [jumpTarget?_eq_some_iff, hlength]
      omega
    have hjmp : (conditionalCode body (some code))[1 + body.length]? = some (.jmp code.length) := by
      simp [hwhole, Nat.add_comm 1]
    have hstop : jumpTarget? (1 + body.length) code.length
        (conditionalCode body (some code)).length = some (body.length + 2 + code.length) := by
      rw [jumpTarget?_eq_some_iff, hlength]
      omega
    have hend : env.RunsFrom (conditionalCode body (some code)) (body.length + 2 + code.length) =
        Effect.skip := Env.runsFrom_length env hlength.symm
    have htrue : env.RunsFrom (conditionalCode body (some code)) 1 = env.Runs body := by
      rw [Env.runsFrom_inside env _ _ 1 (1 + body.length) hbody hwhole rfl rfl,
        Env.runsFrom_jmp hjmp hstop, hend, Effect.andThen_skip]
    have hfront : conditionalCode body (some code) =
        (.jmpf (body.length + 1 : Nat) :: body ++ [.jmp code.length]) ++ code ++ [] := by
      simp [hwhole]
    have halternative : env.RunsFrom (conditionalCode body (some code)) (body.length + 2) =
        env.Runs code := by
      rw [Env.runsFrom_inside env _ _ _ (body.length + 2 + code.length) horElse hfront (by simp) rfl,
        hend, Effect.andThen_skip]
      rfl
    rw [Env.Runs, Env.runsFrom_jmpf rfl hfalse, htrue, halternative, Option.getD_some]

/-- A loop without an alternative takes its turns until there are no more. -/
theorem runs_loopCode_none (hbody : Closed body) :
    env.Runs (loopCode body none) =
      ((env.Runs body).andThen ((env.Runs body).loop Effect.skip)).forNext Effect.skip := by
  have hwhole : loopCode body none =
      [.next (body.length + 1 : Nat)] ++ body ++ [.jmp (-(body.length + 2 : Nat))] := by
    simp [loopCode, alternativeCode]
  have hlength : (loopCode body none).length = body.length + 2 := by
    simp [hwhole]
  have hend : env.RunsFrom (loopCode body none) (body.length + 2) = Effect.skip :=
    Env.runsFrom_length env hlength.symm
  have hloop : Env.LoopAt (loopCode body none) body [.next (body.length + 1 : Nat)]
      [.jmp (-(body.length + 2 : Nat))] 0 (body.length + 2) :=
    { closed := hbody
      split := hwhole
      length_front := rfl
      next := ⟨_, rfl, by rw [jumpTarget?_eq_some_iff, hlength]; omega⟩
      back := ⟨-(body.length + 2 : Nat), by simp [hwhole, Nat.add_comm 1], by
        rw [jumpTarget?_eq_some_iff, hlength, List.length_singleton]
        omega⟩ }
  rw [Env.Runs, Env.runsFrom_loop hloop, hend, ← Effect.loop_eq]

/-- A loop with an alternative takes its first turn behind a test of its own. -/
theorem runs_loopCode_some {code : List Instr} (hbody : Closed body) (hcode : Closed code) :
    env.Runs (loopCode body (some code)) =
      ((env.Runs body).andThen ((env.Runs body).loop Effect.skip)).forNext (env.Runs code) := by
  have hwhole : loopCode body (some code) =
      [.next (body.length + 4 : Nat), .jmp 1, .next (body.length + 2 + code.length : Nat)] ++
        body ++ (.jmp (-(body.length + 2 : Nat)) :: .jmp code.length :: code) := rfl
  have hlength : (loopCode body (some code)).length = body.length + 5 + code.length := by
    simp [hwhole]
    omega
  have hend : env.RunsFrom (loopCode body (some code)) (body.length + 5 + code.length) =
      Effect.skip := Env.runsFrom_length env hlength.symm
  have hback : (loopCode body (some code))[3 + body.length]? =
      some (.jmp (-(body.length + 2 : Nat))) := by
    simp [hwhole, Nat.add_comm 3]
  have hto : jumpTarget? (3 + body.length) (-(body.length + 2 : Nat))
      (loopCode body (some code)).length = some 2 := by
    rw [jumpTarget?_eq_some_iff, hlength]
    omega
  have hloop : Env.LoopAt (loopCode body (some code)) body
      [.next (body.length + 4 : Nat), .jmp 1, .next (body.length + 2 + code.length : Nat)]
      (.jmp (-(body.length + 2 : Nat)) :: .jmp code.length :: code) 2
      (body.length + 5 + code.length) :=
    { closed := hbody
      split := hwhole
      length_front := rfl
      next := ⟨_, rfl, by rw [jumpTarget?_eq_some_iff, hlength]; omega⟩
      back := ⟨_, hback, hto⟩ }
  have hagain : env.RunsFrom (loopCode body (some code)) 2 =
      (env.Runs body).loop Effect.skip := by
    rw [Env.runsFrom_loop hloop, hend]
  have hskip : jumpTarget? 1 1 (loopCode body (some code)).length = some 3 := by
    rw [jumpTarget?_eq_some_iff, hlength]
    omega
  have hfirst : env.RunsFrom (loopCode body (some code)) 1 =
      (env.Runs body).andThen ((env.Runs body).loop Effect.skip) := by
    rw [Env.runsFrom_jmp rfl hskip,
      Env.runsFrom_inside env _ _ 3 (3 + body.length) hbody hwhole rfl rfl,
      Env.runsFrom_jmp hback hto, hagain]
  have hfront : loopCode body (some code) =
      ([.next (body.length + 4 : Nat), .jmp 1, .next (body.length + 2 + code.length : Nat)] ++
        body ++ [.jmp (-(body.length + 2 : Nat)), .jmp code.length]) ++ code ++ [] := by
    simp [hwhole]
  have halternative : env.RunsFrom (loopCode body (some code)) (body.length + 5) =
      env.Runs code := by
    rw [Env.runsFrom_inside env _ _ (body.length + 5) (body.length + 5 + code.length) hcode
      hfront (by simp) rfl, hend, Effect.andThen_skip]
  have hnone : jumpTarget? 0 (body.length + 4 : Nat) (loopCode body (some code)).length =
      some (body.length + 5) := by
    rw [jumpTarget?_eq_some_iff, hlength]
    omega
  rw [Env.Runs, Env.runsFrom_next rfl hnone, hfirst, halternative]

/-- The jumps of a loop lead behind it, back to its start and, if there is no element at all, to the
alternative. -/
theorem runs_loopCode (hbody : Closed body) {orElse : Option (List Instr)}
    (horElse : Closed (orElse.getD [])) :
    env.Runs (loopCode body orElse) =
      ((env.Runs body).andThen ((env.Runs body).loop Effect.skip)).forNext
        (env.Runs (orElse.getD [])) := by
  cases orElse with
  | none => rw [runs_loopCode_none hbody, Option.getD_none, Env.runs_nil]
  | some code => exact runs_loopCode_some hbody horElse

end

end Compile
end Stencil
