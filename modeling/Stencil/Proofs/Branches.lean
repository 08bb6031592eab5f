import Stencil.Proofs.Loops

/-!
# Branches

What the code of an `if`, a `with` or a `range` does. Its condition is evaluated on values of its
own. The value it leaves on top selects what comes next: a body in a scope, a loop of such bodies,
or the alternative. All values of the condition are gone when the branch is over, whichever way it
went.
-/

namespace Stencil

namespace Effect

/-- Evaluate straight-line code on empty stacks and go on with the value it leaves on top. -/
def evaluate (schema : Schema) (t : Tables) (code : List Instr) (next : Value → Effect) : Effect :=
  fun m o =>
    match m.bare.steps schema t code with
    | .failed e sink streams => o = .failed e sink streams
    | .done l => ∃ v, l.stack.head? = some v ∧ next v (l.within m.frame) o

/-- What a branch does with the value of its condition. -/
def branch (t : Tables) (kind : BranchKind) (assign : Bool) (decl : List Nat)
    (body orElse : Effect) (v : Value) : Effect :=
  match kind with
  | .ifThen => if v.isTrue then body.scope t assign (decl.map (·, v)) none else orElse
  | .withDot => if v.isTrue then body.scope t assign (decl.map (·, v)) (some v) else orElse
  | .range => fun m o =>
    match Iteration.start v with
    | .error e => fail e m o
    | .ok it => eachOrElse (Compile.rangeTurn t assign decl body) orElse it m o

variable {schema : Schema} {t : Tables} {code : List Instr} {next : Value → Effect}

/-- What is done with a value evaluated on empty stacks does not depend on the stacks. -/
theorem local_evaluate (hnext : ∀ v, (next v).Local) : (evaluate schema t code next).Local where
  frame {m m'} h := by
    unfold evaluate at h
    split at h
    · cases h
    · obtain ⟨v, -, hv⟩ := h
      have hframe := (hnext v).frame hv
      exact hframe
  within {m o} h F := by
    unfold evaluate at h ⊢
    rw [Machine.bare_within, Machine.frame_within]
    split at h
    · cases h
      rfl
    · obtain ⟨v, hhead, hv⟩ := h
      exact ⟨v, hhead, (hnext v).within hv F⟩

/-- An evaluation is neutral if what is done with its value is, but for the variables that it declares. -/
theorem neutral_evaluate {declared : List Nat} {after : Nat} (hcode : Straight code)
    (hleaves : Leaves code 0 after) (hvalid : ∀ i ∈ code, i.Valid t)
    (hnext : ∀ v, (next v).Neutral declared) :
    (evaluate schema t code next).Neutral (declared ++ declaredBy code) where
  toLocal := local_evaluate fun v => (hnext v).toLocal
  dot {m m'} h := by
    unfold evaluate at h
    split at h
    · cases h
    · next l hsteps =>
      obtain ⟨v, -, hv⟩ := h
      exact ((hnext v).dot hv).trans (Machine.follows_steps hcode hsteps).dot
  names {m m'} h := by
    unfold evaluate at h
    split at h
    · cases h
    · next l hsteps =>
      obtain ⟨v, -, hv⟩ := h
      rw [(hnext v).names hv, Machine.names_within, (Machine.follows_steps hcode hsteps).names,
        Machine.names_bare, List.append_assoc]
  ordinary {m e sink streams} h := by
    unfold evaluate at h
    split at h
    · next hsteps =>
      cases h
      exact Machine.ordinary_steps hcode hvalid hleaves (Nat.zero_le _) hsteps
    · obtain ⟨v, -, hv⟩ := h
      exact (hnext v).ordinary hv

/-- An ordinary failure is neutral. -/
theorem neutral_fail {e : RuntimeError} (he : e.Ordinary) : (fail e).Neutral [] where
  frame h := by cases h
  within h F := by
    cases h
    rfl
  dot h := by cases h
  names h := by cases h
  ordinary h := by
    cases h
    exact he

/-- A branch of neutral parts is neutral. -/
theorem neutral_branch {kind : BranchKind} {assign : Bool} {decl : List Nat} {body orElse : Effect}
    (hbody : body.Neutral []) (horElse : orElse.Neutral []) (v : Value) :
    (branch t kind assign decl body orElse v).Neutral [] := by
  unfold branch
  cases kind with
  | ifThen | withDot =>
    simp only
    split
    · exact hbody.scope
    · exact horElse
  | range =>
    simp only
    split
    · next e he => exact neutral_fail (Iteration.ordinary_start he)
    · exact neutral_eachOrElse (fun _ _ => hbody.scope) horElse _

end Effect

namespace Env

variable {env : Env} {condition body : List Instr} {orElse : Option (List Instr)} {m l : Machine}
  {o : Outcome} {kind : BranchKind} {assign : Bool} {decl : List Nat} {pop : Option Nat} {v : Value}
  {stack : List Value}

/-- The body of a conditional pops the values of its condition, of which it binds the first. -/
theorem runs_boundCode {name : Nat} (hbody : Closed body)
    (hneutral : (env.Runs body).Neutral []) (F : Frame) (hfits : Fits pop l.stack.length)
    (hstack : l.stack = v :: stack) :
    env.Runs (Compile.boundCode assign [name] pop body) (l.above (F.held pop)) o ↔
      (env.Runs body).scope env.tables assign [(name, v)] none (l.within F) o := by
  have hsetVar : Closed [Instr.setVar name assign] := closed_cons rfl closed_nil
  have hunset : Closed (if assign then [] else Compile.unsetCode [name]) := by
    cases assign
    · exact Compile.closed_unsetCode [name]
    · exact closed_nil
  have htop : (l.above (F.held pop)).stack = v :: (stack ++ (F.held pop).stack) := by
    rw [Machine.stack_above, hstack, List.cons_append]
  have hscope (r : Outcome) :
      env.Runs ([.setVar name assign] ++ body ++ (if assign then [] else Compile.unsetCode [name]))
          (l.above (F.held pop)) r ↔
        (env.Runs body).scope env.tables assign [(name, v)] none
          { l.above (F.held pop) with stack := stack ++ (F.held pop).stack } r :=
    runs_bound hsetVar hbody hneutral rfl (runs_setVar htop)
  have hheld : F.held pop = F.held (Compile.boundPop pop) := by
    rcases pop with _ | _ | _ | n <;> rfl
  have hfits' : Fits (Compile.boundPop pop) stack.length := by
    rw [hstack, List.length_cons] at hfits
    rcases pop with _ | _ | _ | n
    all_goals simp_all [Fits, Compile.boundPop]
  have hcode : Compile.boundCode assign [name] pop body =
      [.setVar name assign] ++ body ++ (if assign then [] else Compile.unsetCode [name]) ++
        Compile.popCode (Compile.boundPop pop) := rfl
  rw [hcode, runs_append ((hsetVar.append hbody).append hunset) (Compile.closed_popCode _),
    Effect.andThen_congr_left hscope, hheld]
  exact andThen_popCode (l := { l with stack := stack }) hneutral.toLocal.scope F hfits'

/-- What is behind a conditional follows the way it takes. -/
theorem choose_andThen {D E P : Effect} (hstack : m.stack = v :: stack) :
    (D.choose E).andThen P m o ↔ if v.isTrue then D.andThen P m o else E.andThen P m o := by
  have hchoose (r : Outcome) : D.choose E m r ↔ (if v.isTrue then D else E) m r := by
    simp only [Effect.choose, hstack, List.head?_cons, Option.any_some]
    split <;> rfl
  rw [Effect.andThen_congr_left hchoose]
  split <;> rfl

/-- The alternative of a conditional pops the values of the condition, or leaves that to the end. -/
theorem runs_otherCode (decl : List Nat) (horElse : Closed (orElse.getD []))
    (hother : (env.Runs (orElse.getD [])).Local) (F : Frame) (hfits : Fits pop l.stack.length) :
    (env.Runs ((Compile.otherCode decl pop orElse).getD [])).andThen
        (env.Runs (Compile.popCode (Compile.lastPop decl pop))) (l.above (F.held pop)) o ↔
      env.Runs (orElse.getD []) (l.within F) o := by
  have hpop : (env.Runs (orElse.getD [])).andThen (env.Runs (Compile.popCode pop))
      (l.above (F.held pop)) o ↔ env.Runs (orElse.getD []) (l.within F) o :=
    andThen_popCode hother F hfits
  rw [Compile.getD_otherCode, ← hpop]
  cases decl with
  | nil => simp only [List.isEmpty_nil, if_true, List.append_nil, Compile.lastPop]
  | cons name names =>
    simp only [List.isEmpty_cons, Bool.false_eq_true, if_false, Compile.lastPop, Compile.popCode,
      Option.map_none, Option.toList_none, runs_nil, Effect.andThen_skip]
    exact iff_of_eq (congrFun (congrFun (runs_append horElse (Compile.closed_popCode pop)) _) _)

/-- The code of a conditional runs a body whose values are popped with it, or the alternative. -/
theorem runs_conditional {taken : List Instr} {D : Effect} (htaken : Closed taken)
    (horElse : Closed (orElse.getD [])) (hother : (env.Runs (orElse.getD [])).Local) (F : Frame)
    (hfits : Fits pop l.stack.length) (hstack : l.stack = v :: stack)
    (hruns : (env.Runs taken).andThen (env.Runs (Compile.popCode (Compile.lastPop decl pop)))
      (l.above (F.held pop)) o ↔ D (l.within F) o) :
    env.Runs (Compile.conditionalCode taken (Compile.otherCode decl pop orElse) ++
        Compile.popCode (Compile.lastPop decl pop)) (l.above (F.held pop)) o ↔
      (if v.isTrue then D else env.Runs (orElse.getD [])) (l.within F) o := by
  have htop : (l.above (F.held pop)).stack = v :: (stack ++ (F.held pop).stack) := by
    rw [Machine.stack_above, hstack, List.cons_append]
  have hcode := Compile.closed_otherCode decl pop horElse
  rw [runs_append (Compile.closed_conditionalCode htaken hcode) (Compile.closed_popCode _),
    Compile.runs_conditionalCode htaken hcode, choose_andThen htop, hruns,
    runs_otherCode decl horElse hother F hfits]
  split <;> rfl

/-- What a scope does on stacks that it leaves alone. -/
theorem scope_within_frame {D : Effect} (hD : D.Local) {t : Tables} {vars : List (Nat × Value)}
    {dot : Option Value} (G : Frame) (hframe : m.frame = G) :
    (∃ r, D.scope t assign vars dot m r ∧ o = r.map (·.within G)) ↔
      D.scope t assign vars dot m o := by
  have hscope : (D.scope t assign vars dot).Local := hD.scope
  subst hframe
  exact (hscope.run_within m.frame m.frame).symm

/-- A body between `PUSHDOT` and `POPDOT` runs with the condition as its dot. -/
theorem runs_dotted (decl : List Nat) (hdecl : decl.length ≤ 1) (hbody : Closed body)
    (hneutral : (env.Runs body).Neutral []) (F : Frame) (hfits : Fits pop l.stack.length)
    (hstack : l.stack = v :: stack) :
    (env.Runs (.pushDot :: (Compile.boundCode assign decl pop body ++ [.popDot]))).andThen
        (env.Runs (Compile.popCode (Compile.lastPop decl pop))) (l.above (F.held pop)) o ↔
      (env.Runs body).scope env.tables assign (decl.map (·, v)) (some v) (l.within F) o := by
  have htop : (l.above (F.held pop)).stack = v :: (stack ++ (F.held pop).stack) := by
    rw [Machine.stack_above, hstack, List.cons_append]
  have hbound := Compile.closed_boundCode assign decl pop hbody
  match decl with
  | [] =>
    have hdotted (r : Outcome) :
        env.Runs (.pushDot :: (Compile.boundCode assign [] pop body ++ [.popDot]))
            (l.above (F.held pop)) r ↔
          (env.Runs body).scope env.tables assign [] (some v) (l.above (F.held pop)) r := by
      rw [← scope_within_frame hneutral.toLocal _ rfl]
      refine runs_pushDot_scope hneutral.toLocal hbound htop (l.above (F.held pop)).frame rfl
        (fun r => ?_) (l.above (F.held pop)).frame
      rw [Effect.scope_nil hneutral]
      rfl
    rw [Effect.andThen_congr_left hdotted]
    exact andThen_popCode hneutral.toLocal.scope F hfits
  | [name] =>
    have hlast : env.Runs (Compile.popCode (Compile.lastPop [name] pop)) = Effect.skip := runs_nil
    have hsaved : F.dots = (l.above (F.held pop)).dots := by
      rcases pop with _ | _ | _ <;> rfl
    rw [hlast, Effect.andThen_skip, ← scope_within_frame hneutral.toLocal F (Machine.frame_within l F)]
    refine runs_pushDot_scope hneutral.toLocal hbound htop F hsaved (fun r => ?_) F
    have hheld : { l.above (F.held pop) with dots := l.dot :: F.dots, dot := v } =
        Machine.above { l with dot := v } (Frame.held pop { F with dots := l.dot :: F.dots }) := by
      rcases pop with _ | _ | _ <;> rfl
    have hinner : env.Runs (Compile.boundCode assign [name] pop body)
        (Machine.above { l with dot := v } (Frame.held pop { F with dots := l.dot :: F.dots })) r ↔
        (env.Runs body).scope env.tables assign [(name, v)] none
          (Machine.within { l with dot := v } { F with dots := l.dot :: F.dots }) r :=
      runs_boundCode hbody hneutral _ hfits hstack
    rw [← hheld] at hinner
    rw [← hsaved]
    exact hinner

/-- Code that iterates over the value on top of the stack does what the turns with its elements do. -/
theorem runs_iterCode (hdecl : decl.length ≤ 2) (hbody : Closed body)
    (hneutral : (env.Runs body).Neutral []) (horElse : Closed (orElse.getD []))
    (hother : (env.Runs (orElse.getD [])).Neutral []) (F : Frame) (hfits : Fits pop l.stack.length)
    (hstack : l.stack = v :: stack) :
    env.Runs (Compile.branchCode .range assign decl pop body orElse) (l.above (F.held pop)) o ↔
      Effect.branch env.tables .range assign decl (env.Runs body) (env.Runs (orElse.getD [])) v
        (l.within F) o := by
  have hloop := Compile.closed_loopCode (Compile.closed_turnCode assign decl hbody) horElse
  have hcode := hloop.append (Compile.closed_popCode pop)
  have htop : (l.above (F.held pop)).stack = v :: (stack ++ (F.held pop).stack) := by
    rw [Machine.stack_above, hstack, List.cons_append]
  unfold Compile.branchCode Effect.branch
  cases hstart : Iteration.start v with
  | error e =>
    have hiter : (Machine.step env.schema env.tables (l.above (F.held pop)) .iter).outcome? =
        some (.failed e l.sink l.streams) := by
      simp only [Machine.step, htop, hstart, Step.outcome?]
      rfl
    exact runs_cons_of_step env (i := .iter) rfl (by simp) hiter hcode o
  | ok it =>
    have hiter : (Machine.step env.schema env.tables (l.above (F.held pop)) .iter).outcome? =
        some (.done { l.above (F.held pop) with iterations := it :: (F.held pop).iterations }) := by
      simp only [Machine.step, htop, hstart, Step.outcome?]
      rfl
    have hrest := runs_cons_of_step env (i := .iter) rfl (by simp) hiter hcode o
    apply hrest.trans
    have hturn (p v : Value) :
        (Compile.rangeTurn env.tables assign decl (env.Runs body) p v).Local :=
      hneutral.toLocal.scope
    have heach := Effect.local_eachOrElse hturn hother.toLocal it
    have hlocal (r : Outcome) :
        env.Runs (Compile.loopCode (Compile.turnCode assign decl body) orElse)
            { l.above (F.held pop) with iterations := it :: (F.held pop).iterations } r ↔
          Effect.eachOrElse (Compile.rangeTurn env.tables assign decl (env.Runs body))
            (env.Runs (orElse.getD [])) it (l.above (F.held pop)) r :=
      (runs_loopCode_iff (m := l) hdecl hbody hneutral horElse hother.toLocal it
        (l.above (F.held pop)).frame (l.above (F.held pop)).frame).trans
        (heach.run_within (m := l) _ (l.above (F.held pop)).frame).symm
    rw [Effect.proceed, runs_append hloop (Compile.closed_popCode pop),
      Effect.andThen_congr_left hlocal]
    exact andThen_popCode heach F hfits

/-- The code of a branch does what its condition selects. -/
theorem runs_branchCode (hdecl : decl.length ≤ if kind = .range then 2 else 1)
    (hbody : Closed body) (hneutral : (env.Runs body).Neutral []) (horElse : Closed (orElse.getD []))
    (hother : (env.Runs (orElse.getD [])).Neutral []) (F : Frame) (hfits : Fits pop l.stack.length)
    (hstack : l.stack = v :: stack) :
    env.Runs (Compile.branchCode kind assign decl pop body orElse) (l.above (F.held pop)) o ↔
      Effect.branch env.tables kind assign decl (env.Runs body) (env.Runs (orElse.getD [])) v
        (l.within F) o := by
  have hbound := Compile.closed_boundCode assign decl pop hbody
  cases kind with
  | ifThen =>
    apply runs_conditional hbound horElse hother.toLocal F hfits hstack
    match decl with
    | [] =>
      rw [List.map_nil, Effect.scope_nil hneutral]
      exact andThen_popCode hneutral.toLocal F hfits
    | [name] =>
      have hlast : env.Runs (Compile.popCode (Compile.lastPop [name] pop)) = Effect.skip := runs_nil
      rw [hlast, Effect.andThen_skip]
      exact runs_boundCode hbody hneutral F hfits hstack
  | withDot =>
    have htaken : Closed (.pushDot :: (Compile.boundCode assign decl pop body ++ [.popDot])) :=
      closed_cons rfl (hbound.append (closed_cons rfl closed_nil))
    apply runs_conditional htaken horElse hother.toLocal F hfits hstack
    exact runs_dotted decl hdecl hbody hneutral F hfits hstack
  | range => exact runs_iterCode hdecl hbody hneutral horElse hother F hfits hstack

/-- What is done behind straight-line code is done with the value it leaves on top. -/
theorem runs_evaluate {after : Nat} {rest : List Instr} {next : Value → Effect}
    (hcode : Straight condition) (hleaves : Leaves condition 0 after) (hafter : 0 < after)
    (hbalances : Fragment.Balances pop condition) (hrest : Closed rest)
    (hnext : ∀ {l : Machine} {v stack}, l.stack = v :: stack → Fits pop l.stack.length →
      (env.Runs rest (l.above (m.frame.held pop)) o ↔ next v (l.within m.frame) o)) :
    env.Runs (Fragment.holdCode pop ++ condition ++ rest) m o ↔
      Effect.evaluate env.schema env.tables condition next m o := by
  have hfront := (closed_holdCode pop).append hcode.closed
  rw [runs_append hfront hrest, Effect.andThen_of_eq fun _ => runs_held hcode hleaves]
  unfold Effect.evaluate
  cases hsteps : m.bare.steps env.schema env.tables condition with
  | failed e sink streams => exact Iff.rfl
  | done l =>
    have hlength := Machine.le_length_steps hcode hleaves (Nat.zero_le _) hsteps
    obtain ⟨v, stack, hstack⟩ : ∃ v stack, l.stack = v :: stack :=
      List.exists_cons_of_length_pos (by simp at hlength; omega)
    have hfits := Machine.fits_steps hcode hbalances rfl hsteps
    simp only [Outcome.map_done, Effect.proceed, hstack, List.head?_cons, Option.some.injEq,
      exists_eq_left']
    exact hnext hstack hfits

/-- The code of a branch evaluates its condition and does what it selects. -/
theorem runs_branch {after : Nat} (hcondition : Straight condition) (hleaves : Leaves condition 0 after)
    (hafter : 0 < after) (hbalances : Fragment.Balances pop condition)
    (hdecl : decl.length ≤ if kind = .range then 2 else 1)
    (hbody : Closed body) (hneutral : (env.Runs body).Neutral []) (horElse : Closed (orElse.getD []))
    (hother : (env.Runs (orElse.getD [])).Neutral []) :
    env.Runs (Fragment.holdCode pop ++ condition ++
        Compile.branchCode kind assign decl pop body orElse) m o ↔
      Effect.evaluate env.schema env.tables condition
        (Effect.branch env.tables kind assign decl (env.Runs body) (env.Runs (orElse.getD []))) m o :=
  runs_evaluate hcondition hleaves hafter hbalances
    (Compile.closed_branchCode kind assign decl pop hbody horElse) fun hstack hfits =>
      runs_branchCode hdecl hbody hneutral horElse hother m.frame hfits hstack

end Env
end Stencil
