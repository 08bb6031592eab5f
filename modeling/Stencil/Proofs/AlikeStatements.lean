import Stencil.Proofs.AlikeCode
import Stencil.Proofs.Nodes

/-!
# Statements in lockstep

The code of one node compiled twice. What an action prints may have become a text on one side, an
empty text may have been left out, and the bodies of a branch may differ in length; but both codes
have the same effect in programs whose calls have the same effects.
-/

namespace Stencil

/-- Two programs whose tables grow from the given ones and are alike, and whose calls do the same. -/
structure Env.Paired (schema : Schema) (t t' : Tables) (env env' : Env) : Prop where
  schema_left : env.schema = schema
  schema_right : env'.schema = schema
  left : t.Extends env.tables
  right : t'.Extends env'.tables
  alike : env.tables.Alike env'.tables
  call : env.call = env'.call

/-- Whether two closed codes have the same effect in all programs that grow from the given tables in
lockstep. -/
structure StatementsAlike (schema : Schema) (t t' : Tables) (code code' : List Instr) : Prop where
  left : Closed code
  right : Closed code'
  runs : ∀ env env' : Env, Env.Paired schema t t' env env' → env.Runs code = env'.Runs code'

namespace Env.Paired

variable {schema : Schema} {t t' u u' : Tables} {env env' : Env}

/-- Programs that are paired agree on everything that control instructions refer to. -/
theorem similar (h : Paired schema t t' env env') : env.Similar env' :=
  ⟨h.schema_left.trans h.schema_right.symm, h.alike.strings⟩

/-- Programs that are paired for tables are paired for the tables these have grown from. -/
theorem of_extends (h : Paired schema u u' env env') (hleft : t.Extends u) (hright : t'.Extends u') :
    Paired schema t t' env env' :=
  { h with left := hleft.trans h.left, right := hright.trans h.right }

end Env.Paired

namespace StatementsAlike

variable {schema : Schema} {t t' u u' : Tables} {code code' rest rest' : List Instr}

/-- No statements have the effect of no statements. -/
theorem nil : StatementsAlike schema t t' [] [] :=
  ⟨closed_nil, closed_nil, fun _ _ _ => by rw [Env.runs_nil, Env.runs_nil]⟩

/-- Statements that are alike stay so when tables grow. -/
theorem mono (h : StatementsAlike schema t t' code code') (hleft : t.Extends u)
    (hright : t'.Extends u') : StatementsAlike schema u u' code code' :=
  { h with runs := fun env env' hpaired => h.runs env env' (hpaired.of_extends hleft hright) }

/-- Statements that are alike stay so when alike statements are put behind them. -/
theorem append (h : StatementsAlike schema t t' code code') (h' : StatementsAlike schema t t' rest rest') :
    StatementsAlike schema t t' (code ++ rest) (code' ++ rest') where
  left := h.left.append h'.left
  right := h.right.append h'.right
  runs env env' hpaired := by
    rw [Env.runs_append h.left h'.left, Env.runs_append h.right h'.right, h.runs env env' hpaired,
      h'.runs env env' hpaired]

/-- Straight-line codes that do the same steps have the same effect. -/
theorem of_code (h : CodeAlike schema t t' code code') : StatementsAlike schema t t' code code' where
  left := h.left.closed
  right := h.right.closed
  runs env env' hpaired := by
    funext m o
    rw [env.runs_straight h.left, env'.runs_straight h.right, hpaired.schema_left,
      hpaired.schema_right, h.steps _ _ hpaired.left hpaired.right hpaired.alike m]

/-- The code around the bodies of a branch refers to no constants. -/
theorem of_isControl (hcode : ∀ i ∈ code, i.isControl) : StatementsAlike schema t t' code code where
  left := Env.closed_of_isControl hcode
  right := Env.closed_of_isControl hcode
  runs _ _ hpaired := Env.runs_control_congr hpaired.similar hcode

/-- A call does the same in both programs. -/
theorem call (ns index : Nat) : StatementsAlike schema t t' [.template ns index] [.template ns index] where
  left := closed_cons rfl closed_nil
  right := closed_cons rfl closed_nil
  runs env env' hpaired := by
    rw [Env.runs_singleton rfl, Env.runs_singleton rfl]
    exact congrFun (congrFun hpaired.call ns) index

/-- Codes can be replaced by others with the same effect. -/
theorem congr (h : StatementsAlike schema t t' code code') (hrest : Closed rest) (hrest' : Closed rest')
    (hruns : ∀ env : Env, env.schema = schema → t.Extends env.tables → env.Runs rest = env.Runs code)
    (hruns' : ∀ env : Env, env.schema = schema → t'.Extends env.tables → env.Runs rest' = env.Runs code') :
    StatementsAlike schema t t' rest rest' where
  left := hrest
  right := hrest'
  runs env env' hpaired := by
    rw [hruns env hpaired.schema_left hpaired.left, hruns' env' hpaired.schema_right hpaired.right,
      h.runs env env' hpaired]

/-- Balanced codes of pipelines that are alike have the same effect. -/
theorem balanced (h : CodeAlike schema t t' code code') (pop : Option Nat) :
    StatementsAlike schema t t' (Fragment.holdCode pop ++ code ++ Compile.popCode pop)
      (Fragment.holdCode pop ++ code' ++ Compile.popCode pop) :=
  ((of_isControl (Compile.isControl_holdCode pop)).append (of_code h)).append
    (of_isControl (Env.isControl_popCode pop))

/-- Branches have the same effect when their conditions are alike and their bodies have the same
effects. -/
theorem branch {body body' : List Instr} {orElse orElse' : Option (List Instr)} (kind : BranchKind)
    (assign : Bool) (decl : List Nat) (pop : Option Nat) (hcondition : CodeAlike schema t t' code code')
    (hbody : StatementsAlike schema t t' body body')
    (hother : StatementsAlike schema t t' (orElse.getD []) (orElse'.getD [])) :
    StatementsAlike schema t t'
      (Fragment.holdCode pop ++ code ++ Compile.branchCode kind assign decl pop body orElse)
      (Fragment.holdCode pop ++ code' ++ Compile.branchCode kind assign decl pop body' orElse') := by
  have hfront : StatementsAlike schema t t' (Fragment.holdCode pop ++ code)
      (Fragment.holdCode pop ++ code') :=
    append (of_isControl (Compile.isControl_holdCode pop)) (of_code hcondition)
  exact hfront.append {
    left := Compile.closed_branchCode kind assign decl pop hbody.left hother.left
    right := Compile.closed_branchCode kind assign decl pop hbody.right hother.right
    runs := fun env env' hpaired =>
      Env.runs_branchCode_congr hpaired.similar kind hbody.left hbody.right (hbody.runs env env' hpaired)
        hother.left hother.right (hother.runs env env' hpaired) }

end StatementsAlike

namespace Env

variable {env : Env} {m : Machine} {o : Outcome}

/-- How writing bytes ends. -/
def written (m : Machine) (bytes : ByteArray) : Outcome :=
  match m.sink.write bytes with
  | (sink, none) => .done { m with sink := sink }
  | (sink, some failure) => .failed (.write failure) sink m.streams

/-- Writing ends as it does in the sink. -/
theorem outcome?_write (bytes : ByteArray) : (m.write bytes).outcome? = some (written m bytes) := by
  unfold Machine.write written
  rcases Sink.write bytes m.sink with ⟨sink, _ | failure⟩ <;> rfl

/-- Writing nothing changes nothing. -/
theorem written_empty : written m .empty = .done m := by
  rw [written, Sink.write_empty]

/-- A `WB` writes its text. -/
theorem runs_wb {index : Nat} {bytes : ByteArray} (hchunk : env.tables.chunks[index]? = some bytes) :
    env.Runs [.wb index] m o ↔ o = written m bytes := by
  refine runs_singleton_of_step env rfl (by simp) ?_ o
  simp only [Machine.step, hchunk, outcome?_write]

/-- Printing a constant writes its text. -/
theorem runs_printed {index : Nat} {v : Value} {str : String}
    (hvalue : env.tables.values[index]? = some v) (hprinted : v.printed env.schema = .ok str) :
    env.Runs [.val index, .print, .pop 1] m o ↔ o = written m str.toUTF8 := by
  have hpop : Closed [Instr.pop 1] := closed_cons rfl closed_nil
  have hrest : Closed [Instr.print, .pop 1] := closed_cons rfl hpop
  have hval : (m.step env.schema env.tables (.val index)).outcome? = some (.done (m.push v)) := by
    simp only [Machine.step, hvalue, Step.outcome?]
  have hprint : ((m.push v).step env.schema env.tables .print).outcome? =
      some (written (m.push v) str.toUTF8) := by
    simp only [Machine.step, Machine.push, Machine.print_eq, hprinted, outcome?_write]
  rw [runs_cons_of_step env rfl (by simp) hval hrest, Effect.proceed,
    runs_cons_of_step env rfl (by simp) hprint hpop]
  have hsink : (m.push v).sink = m.sink := rfl
  unfold written
  rw [hsink]
  rcases Sink.write str.toUTF8 m.sink with ⟨sink, _ | failure⟩
  · exact runs_singleton_of_step env rfl (by simp) rfl o
  · exact Iff.rfl

end Env

namespace Compile

/-- Whether the codes of two fragments have the same effect. -/
def NodesAlike (schema : Schema) (f : Fragment) (t : Tables) (f' : Fragment) (t' : Tables) : Prop :=
  StatementsAlike schema t t' f.instrs f'.instrs

variable {c : Context} {options : CompileOptions} {schema : Schema} {pos : Pos} {s s' s₁ : State}
  {f f' g g' b : Fragment}

/-- Nodes whose code is alike stay so when tables grow. -/
theorem NodesAlike.mono {t t' u u' : Tables} (hf : NodesAlike schema f t f' t') (hleft : t.Extends u)
    (hright : t'.Extends u') : NodesAlike schema f u f' u' :=
  StatementsAlike.mono hf hleft hright

/-! ### Texts and actions -/

/-- Bytes that are written have the same effect in both compilations. -/
theorem lockstep_pushBytes_nodes (hs : s.Alike s') (hf : NodesAlike schema f s.tables f' s'.tables)
    (bytes : ByteArray) :
    Lockstep (pushBytes c pos f bytes) (pushBytes (c.withOptions options) pos f' bytes) s s'
      (NodesAlike schema) := by
  apply (lockstep_addChunk hs bytes).bind
  intro i t i' t' _ _ hadvance hentry
  apply lockstep_pure hadvance.alike
  unfold NodesAlike
  rw [Fragment.instrs_push, Fragment.instrs_push]
  exact (hf.mono hadvance.left hadvance.right).append (.of_code (.wb hentry.1 hentry.2))

/-- Text has the same effect in both compilations if both decide alike what is left of it. -/
theorem lockstep_text (hs : s.Alike s') (hf : NodesAlike schema f s.tables f' s'.tables) (str : String)
    (hdecide : staticText c.set f str = staticText c.set f' str) :
    Lockstep (text c pos f str) (text (c.withOptions options) pos f' str) s s' (NodesAlike schema) := by
  have hset : (c.withOptions options).set = c.set := rfl
  unfold text
  simp only [hset, ← hdecide]
  split
  · exact lockstep_pure hs hf
  · exact lockstep_pushBytes_nodes hs hf _

/-- Code that does what the balanced code of an action does. -/
structure Settles (schema : Schema) (s s' : State) (g : List Instr) (pop : Option Nat)
    (code : List Instr) : Prop where
  isLocal : ∀ i ∈ code, i.isLocal
  balances : Fragment.Balances pop g
  extends_ : s.tables.Extends s'.tables
  alike : s.Alike s'
  runs : ∀ env : Env, env.schema = schema → s'.tables.Extends env.tables →
    env.Runs code = env.Runs (Fragment.holdCode pop ++ g ++ popCode pop)

/-- What settles an action is closed. -/
theorem Settles.closed {code : List Instr} {pop : Option Nat}
    (h : Settles schema s s' g.instrs pop code) : Closed code :=
  closed_of_distance? fun i hi => Instr.distance?_of_isLocal (h.isLocal i hi)

/-- Straight-line code is still local when it has been balanced. -/
theorem isLocal_balanced {code : List Instr} (hcode : Straight code) (pop : Option Nat) :
    ∀ i ∈ Fragment.holdCode pop ++ code ++ popCode pop, i.isLocal := by
  simp only [List.forall_mem_append]
  refine ⟨⟨?_, fun i hi => Instr.isLocal_of_isStraight (hcode i hi)⟩, ?_⟩
  · unfold Fragment.holdCode
    split <;> simp [Instr.isLocal]
  · cases pop <;> simp [popCode, Instr.isLocal]

/-- Balanced code is the code with a `MARK` in front of it, if it needs one, and a `POP` behind it. -/
theorem balanced_eq_ok (hstraight : Straight g.instrs) (h : balanced c pos g s = .ok (b, s₁)) :
    s₁ = s ∧ ∃ held pop, b.takePop = (held, pop) ∧ held.instrs = Fragment.holdCode pop ++ g.instrs ∧
      b.instrs = held.instrs ++ popCode pop ∧ Fragment.Balances pop g.instrs := by
  unfold balanced at h
  cases hbalance : g.balance with
  | ok b' =>
    rw [hbalance] at h
    cases h
    exact ⟨rfl, Fragment.balance_eq_ok hstraight hbalance⟩
  | error e =>
    rw [hbalance] at h
    cases h

/-- Code that prints a constant pushes it and prints it. -/
theorem printedConstant?_eq_some {t : Tables} {str : String}
    (h : printedConstant? c t g.code = some str) :
    ∃ index v, g.instrs = [.val index, .print] ∧ t.values[index]? = some v ∧
      v.printed c.schema = .ok str := by
  unfold printedConstant? at h
  split at h
  · next index hcode =>
    obtain ⟨v, hv, hprinted⟩ := Option.bind_eq_some_iff.mp h
    refine ⟨index, v, hcode, hv, ?_⟩
    cases hresult : v.printed c.schema with
    | ok s =>
      rw [hresult] at hprinted
      cases hprinted
      rfl
    | error e =>
      rw [hresult] at hprinted
      cases hprinted
  · cases h

/-- What an action writes is the text of its constant, or else its balanced code prints it. -/
def settle (c : Context) (pos : Pos) (f g : Fragment) (t : Tables) : M Fragment :=
  match printedConstant? c t g.code with
  | some text => if text.isEmpty then return f else pushBytes c pos f text.toUTF8
  | none => return f.append (← balanced c pos g)

/-- What settles an action has the effect of its balanced code. -/
theorem settle_eq_ok (hstraight : Straight g.instrs) (h : settle c pos f g s.tables s = .ok (f', s₁)) :
    ∃ code pop, f'.instrs = f.instrs ++ code ∧ Settles c.schema s s₁ g.instrs pop code := by
  unfold settle at h
  cases hprinted : printedConstant? c s.tables g.code with
  | some str =>
    rw [hprinted] at h
    obtain ⟨index, v, hcode, hvalue, hstr⟩ := printedConstant?_eq_some hprinted
    have hbalances : Fragment.Balances (some 1) g.instrs := by
      rw [hcode]
      exact ⟨rfl, rfl⟩
    have hruns {env : Env} {m : Machine} {o : Outcome} (hschema : env.schema = c.schema)
        (hextends : s.tables.Extends env.tables) :
        env.Runs (Fragment.holdCode (some 1) ++ g.instrs ++ popCode (some 1)) m o ↔
          o = Env.written m str.toUTF8 := by
      rw [hcode]
      exact Env.runs_printed (hextends.values _ _ hvalue) (hschema ▸ hstr)
    by_cases hempty : str.isEmpty = true
    · simp only [hempty, if_true] at h
      cases h
      refine ⟨[], some 1, (List.append_nil _).symm, (fun _ hi => nomatch hi), hbalances, .refl _, .refl _, ?_⟩
      intro env hschema hextends
      funext m o
      have hbytes : str.toUTF8 = .empty := by
        rw [String.isEmpty_iff.mp hempty]
        rfl
      rw [Env.runs_nil, hruns hschema hextends, hbytes, Env.written_empty]
      rfl
    · simp only [if_neg hempty] at h
      obtain ⟨index', t, hchunk, hpure⟩ := bind_eq_ok.mp h
      cases hpure
      obtain ⟨u, hadd, rfl⟩ := addEntry_eq_ok hchunk
      obtain ⟨hextends, -, hentry⟩ := Tables.addChunk_eq_some hadd
      refine ⟨[.wb index'], some 1, Fragment.instrs_push f _, List.forall_mem_singleton.mpr rfl, hbalances,
        hextends, ⟨.of_addChunk hadd, rfl, rfl⟩, ?_⟩
      intro env hschema hextends'
      funext m o
      rw [hruns hschema (hextends.trans hextends'), Env.runs_wb (hextends'.chunks _ _ hentry)]
  | none =>
    rw [hprinted] at h
    obtain ⟨b, s₂, hbalanced, hpure⟩ := bind_eq_ok.mp h
    cases hpure
    obtain ⟨rfl, held, pop, -, hheld, hb, hbalances⟩ := balanced_eq_ok hstraight hbalanced
    refine ⟨b.instrs, pop, Fragment.instrs_append f b, ?_, hbalances, .refl _, .refl _, ?_⟩
    · rw [hb, hheld]
      exact isLocal_balanced hstraight pop
    · intro env _ _
      rw [hb, hheld]

/-- What an action writes is the same on both sides, whether or not it has become a text. -/
theorem lockstep_settle (hs : s.Alike s') (hf : NodesAlike c.schema f s.tables f' s'.tables)
    (hg : FragmentsAlike c.schema g s.tables g' s'.tables) :
    Lockstep (settle c pos f g s.tables) (settle (c.withOptions options) pos f' g' s'.tables) s s'
      (NodesAlike c.schema) := by
  intro b t b' t' hrun hrun'
  obtain ⟨code, pop, hcode, hsettles⟩ := settle_eq_ok hg.left hrun
  obtain ⟨code', pop', hcode', hsettles'⟩ := settle_eq_ok hg.right hrun'
  obtain rfl : pop = pop' := (hsettles.balances.of_count hg.fields hg.count).unique hsettles'.balances
  refine ⟨⟨hsettles.extends_, hsettles'.extends_,
    (hsettles.alike.symm.trans hs).trans hsettles'.alike⟩, ?_⟩
  have hbalanced := (StatementsAlike.balanced hg pop).mono hsettles.extends_ hsettles'.extends_
  have hwritten := hbalanced.congr hsettles.closed hsettles'.closed hsettles.runs hsettles'.runs
  unfold NodesAlike
  rw [hcode, hcode']
  exact (hf.mono hsettles.extends_ hsettles'.extends_).append hwritten

/-- An action compiles its pipeline, lets it be printed unless it declares or a hook is pending, and settles
it. -/
theorem action_eq (c : Context) (pos : Pos) (f : Fragment) (pipe : Pipeline) :
    action c pos f pipe = (do
      let g ← pipeline c true pipe
      let s ← get
      let g := if pipe.decl.isEmpty && !s.noPrint then g.push .print else g
      set { s with noPrint := false }
      settle c pos f g s.tables) := rfl

/-- An action has the same effect in both compilations if both decide alike about its pipeline. -/
theorem lockstep_action (hs : s.Alike s') (hf : NodesAlike c.schema f s.tables f' s'.tables)
    (pipe : Pipeline) (hdecide : pipe.decisions c s = pipe.decisions (c.withOptions options) s') :
    Lockstep (action c pos f pipe) (action (c.withOptions options) pos f' pipe) s s'
      (NodesAlike c.schema) := by
  rw [action_eq, action_eq]
  apply (lockstep_pipeline true pipe s s' hs hdecide).bind
  intro g t g' t' _ _ hadvance hg
  refine lockstep_get_bind (lockstep_set_bind rfl rfl ?_)
  have hprinted : FragmentsAlike c.schema
      (if pipe.decl.isEmpty && !t.noPrint then g.push .print else g) t.tables
      (if pipe.decl.isEmpty && !t'.noPrint then g'.push .print else g') t'.tables := by
    rw [hadvance.alike.noPrint]
    split
    · exact hg.push rfl (by simp) (by simp)
    · exact hg
  have hnext : State.Alike { t with noPrint := false } { t' with noPrint := false } :=
    ⟨hadvance.alike.tables, rfl, hadvance.alike.declared⟩
  exact lockstep_settle hnext (hf.mono hadvance.left hadvance.right) hprinted

/-! ### Template calls -/

/-- The code of a pipeline is balanced by the same `POP` on both sides. -/
theorem lockstep_balanced (hs : s.Alike s') (hg : FragmentsAlike schema g s.tables g' s'.tables) :
    Lockstep (balanced c pos g) (balanced (c.withOptions options) pos g') s s' fun b _ b' _ =>
      ∃ held held' pop, b.takePop = (held, pop) ∧ b'.takePop = (held', pop) ∧
        held.instrs = Fragment.holdCode pop ++ g.instrs ∧
        held'.instrs = Fragment.holdCode pop ++ g'.instrs := by
  intro b t b' t' hrun hrun'
  obtain ⟨rfl, held, pop, htake, hheld, -, hbalances⟩ := balanced_eq_ok hg.left hrun
  obtain ⟨rfl, held', pop', htake', hheld', -, hbalances'⟩ := balanced_eq_ok hg.right hrun'
  obtain rfl : pop = pop' := (hbalances.of_count hg.fields hg.count).unique hbalances'
  exact ⟨.refl hs, held, held', pop, htake, htake', hheld, hheld'⟩

/-- Both compilations find the same namespace for a callee. -/
theorem lockstep_callNamespace (hs : s.Alike s') (target : String) :
    Lockstep (callNamespace c pos target) (callNamespace (c.withOptions options) pos target) s s'
      fun ns _ ns' _ => ns = ns' := by
  apply (lockstep_intern hs _).bind
  intro ns t ns' t' _ _ hadvance hns
  subst hns
  split
  · exact lockstep_pure hadvance.alike rfl
  · exact lockstep_fail

/-- A call is compiled behind its data on both sides. -/
theorem lockstep_templateBehind (hs : s.Alike s') (hf : NodesAlike schema f s.tables f' s'.tables)
    (hg : FragmentsAlike schema g s.tables g' s'.tables) (name : String) :
    Lockstep (templateBehind c pos f name g) (templateBehind (c.withOptions options) pos f' name g') s s'
      (NodesAlike schema) := by
  apply (lockstep_balanced hs hg).bind
  intro b t b' t' _ _ hadvance hb
  obtain ⟨held, held', pop, htake, htake', hheld, hheld'⟩ := hb
  rw [htake, htake']
  apply (lockstep_callNamespace hadvance.alike name).bind
  intro ns u ns' u' _ _ hadvance₁ hns
  subst hns
  apply (lockstep_intern hadvance₁.alike name).bind
  intro index v index' v' _ _ hadvance₂ hindex
  subst hindex
  apply lockstep_pure hadvance₂.alike
  have hgrown := (hadvance.trans hadvance₁).trans hadvance₂
  unfold NodesAlike
  simp only [instrs_addPop, Fragment.instrs_push, Fragment.instrs_append, hheld, hheld']
  exact (((hf.mono hgrown.left hgrown.right).append ((StatementsAlike.of_isControl
    (isControl_holdCode pop)).append (.of_code (hg.mono hgrown.left hgrown.right)))).append
      (.call ns index)).append (.of_isControl (Env.isControl_popCode pop))

/-- A template call has the same effect in both compilations if both decide alike about its pipeline. -/
theorem lockstep_templateCall (hs : s.Alike s') (hf : NodesAlike c.schema f s.tables f' s'.tables)
    (name : String) (pipe : Option Pipeline)
    (hdecide : ∀ p, pipe = some p → p.decisions c s = p.decisions (c.withOptions options) s') :
    Lockstep (templateCall c pos f name pipe) (templateCall (c.withOptions options) pos f' name pipe) s s'
      (NodesAlike c.schema) := by
  by_cases hcontains : c.set.contains name = true
  · have hcontains' : (c.withOptions options).set.contains name = true := hcontains
    rw [templateCall_of_contains hcontains, templateCall_of_contains hcontains']
    cases pipe with
    | some p =>
      apply (lockstep_pipeline true p s s' hs (hdecide p rfl)).bind
      intro g t g' t' _ _ hadvance hg
      exact lockstep_templateBehind hadvance.alike (hf.mono hadvance.left hadvance.right) hg name
    | none =>
      apply (lockstep_pushValue hs (.empty c.schema _ _) .nil).bind
      intro g t g' t' _ _ hadvance hg
      exact lockstep_templateBehind hadvance.alike (hf.mono hadvance.left hadvance.right) hg name
  · rw [templateCall_of_not_contains hcontains]
    exact lockstep_fail

/-! ### Branches -/

/-- Both compilations intern the same names. -/
theorem lockstep_internAll (hs : s.Alike s') (decl : List Variable) :
    Lockstep (internAll c decl) (internAll (c.withOptions options) decl) s s'
      fun indices _ indices' _ => indices = indices' := by
  induction decl generalizing s s' with
  | nil => exact lockstep_pure hs rfl
  | cons v rest ih =>
    apply (lockstep_intern hs v.name).bind
    intro index t index' t' _ _ hadvance hindex
    apply (ih hadvance.alike).bind
    intro indices u indices' u' _ _ hadvance' hindices
    exact lockstep_pure hadvance'.alike (by rw [hindex, hindices])

/-- Bodies in lockstep give up the same variables at their ends. -/
theorem lockstep_inScope {x x' : M Fragment} (hs : s.Alike s')
    (h : Lockstep x x' { s with declared := [] } { s' with declared := [] } (NodesAlike schema)) :
    Lockstep (inScope x) (inScope x') s s' (NodesAlike schema) := by
  refine lockstep_get_bind (lockstep_modify_bind rfl rfl ?_)
  refine h.bind fun f t f' t' _ _ hadvance hf => lockstep_get_bind (lockstep_modify_bind rfl rfl ?_)
  refine lockstep_pure ⟨hadvance.alike.tables, hadvance.alike.noPrint, hs.declared⟩ ?_
  unfold NodesAlike
  rw [instrs_unsetAll, instrs_unsetAll, hadvance.alike.declared]
  exact StatementsAlike.append hf (.of_isControl (Env.isControl_unsetCode _))

/-- A body has the same effect in both compilations if its nodes have. -/
theorem lockstep_body {ns : List Node} (pos : Pos) (hs : s.Alike s')
    (h : Lockstep (nodes c .empty ns) (nodes (c.withOptions options) .empty ns)
      { s with declared := [] } { s' with declared := [] } (NodesAlike schema)) :
    Lockstep (inScope (return (← nodes c .empty ns).mark pos))
      (inScope (return (← nodes (c.withOptions options) .empty ns).mark pos)) s s'
      (NodesAlike schema) :=
  lockstep_inScope hs (h.bind fun _ _ _ _ _ _ hadvance hg => lockstep_pure hadvance.alike hg)

/-- Whether the codes of two alternatives have the same effect, where a missing one has none. -/
def OthersAlike (schema : Schema) (f : Option Fragment) (t : Tables) (f' : Option Fragment)
    (t' : Tables) : Prop :=
  StatementsAlike schema t t' ((f.map Fragment.instrs).getD []) ((f'.map Fragment.instrs).getD [])

mutual

/-- The code of a node has the same effect on both sides if the same has been decided. -/
theorem lockstep_node : ∀ (n : Node) (f f' : Fragment) (s s' : State), s.Alike s' →
    NodesAlike c.schema f s.tables f' s'.tables →
    n.decisions c f s = n.decisions (c.withOptions options) f' s' →
    Lockstep (node c f n) (node (c.withOptions options) f' n) s s' (NodesAlike c.schema)
  | .list ⟨pos, ns⟩, f, f', s, s', hs, hf, hdecide =>
    (lockstep_nodes ns f f' s s' hs hf hdecide).bind fun _ _ _ _ _ _ hadvance hg =>
      lockstep_pure hadvance.alike hg
  | .text pos str, f, f', s, s', hs, hf, hdecide =>
    (lockstep_text hs hf str (Decisions.text.inj hdecide)).bind fun _ _ _ _ _ _ hadvance hg =>
      lockstep_pure hadvance.alike hg
  | .action pos pipe, f, f', s, s', hs, hf, hdecide =>
    (lockstep_action hs hf pipe hdecide).bind fun _ _ _ _ _ _ hadvance hg =>
      lockstep_pure hadvance.alike hg
  | .comment pos str, f, f', s, s', hs, hf, _ => lockstep_pure hs hf
  | .branch kind pos pipe ⟨bodyPos, ns⟩ orElse, f, f', s, s', hs, hf, hdecide => by
    have hfirst := (Decisions.both.inj hdecide).1
    refine (lockstep_pipeline false pipe s s' hs hfirst).bind fun condition t condition' t' hx hx'
      hadvance hcondition => ?_
    have hrest := Decisions.both_after hdecide hx hx'
    have hnodes := lockstep_nodes ns .empty .empty _ _ hadvance.alike.undeclared .nil
      (Decisions.both.inj hrest).1
    refine (lockstep_body bodyPos hadvance.alike hnodes).bind fun body u body' u' hy hy' hadvance₁
      hbody => ?_
    refine (lockstep_alternative orElse u u' hadvance₁.alike (Decisions.both_after hrest hy hy')).bind
      fun other v other' v' _ _ hadvance₂ hother => ?_
    have hgrown := hadvance₁.trans hadvance₂
    have hcondition₂ := hcondition.mono hgrown.left hgrown.right
    apply (lockstep_balanced hadvance₂.alike hcondition₂).bind
    intro b w b' w' _ _ hadvance₃ hb
    obtain ⟨held, held', pop, htake, htake', hheld, hheld'⟩ := hb
    rw [htake, htake']
    refine (lockstep_internAll hadvance₃.alike pipe.decl).bind fun decl y decl' y' _ _ hadvance₄
      hdecl => ?_
    subst hdecl
    simp only
    split
    · split
      · have hafter := hadvance₃.trans hadvance₄
        have hwhole := hadvance.trans (hgrown.trans hafter)
        apply lockstep_pure hafter.alike
        unfold NodesAlike
        rw [Fragment.instrs_mark, Fragment.instrs_mark, Fragment.instrs_append, Fragment.instrs_append,
          instrs_layout, instrs_layout, hheld, hheld']
        have hbody₂ := hbody.mono (hadvance₂.trans hafter).left (hadvance₂.trans hafter).right
        exact (hf.mono hwhole.left hwhole.right).append (.branch kind pipe.assign decl pop
          (hcondition₂.mono hafter.left hafter.right) hbody₂ (hother.mono hafter.left hafter.right))
      · exact lockstep_fail_right
    · exact lockstep_fail
  | .template pos name pipe, f, f', s, s', hs, hf, hdecide => by
    refine (lockstep_templateCall hs hf name pipe fun p hp => ?_).bind fun _ _ _ _ _ _ hadvance hg =>
      lockstep_pure hadvance.alike hg
    subst hp
    exact hdecide
  | .breakLoop pos, f, f', s, s', hs, hf, _ => lockstep_fail
  | .continueLoop pos, f, f', s, s', hs, hf, _ => lockstep_fail

/-- The code of nodes has the same effect on both sides if the same has been decided. -/
theorem lockstep_nodes : ∀ (ns : List Node) (f f' : Fragment) (s s' : State), s.Alike s' →
    NodesAlike c.schema f s.tables f' s'.tables →
    Node.allDecisions c f s ns = Node.allDecisions (c.withOptions options) f' s' ns →
    Lockstep (nodes c f ns) (nodes (c.withOptions options) f' ns) s s' (NodesAlike c.schema)
  | [], f, f', s, s', hs, hf, _ => lockstep_pure hs hf
  | n :: rest, f, f', s, s', hs, hf, hdecide => by
    have hfirst := (Decisions.both.inj hdecide).1
    apply (lockstep_node n f f' s s' hs hf hfirst).bind
    intro g t g' t' hx hx' hadvance hg
    exact lockstep_nodes rest g g' t t' hadvance.alike hg (Decisions.both_after hdecide hx hx')

/-- The code of an alternative has the same effect on both sides if the same has been decided. -/
theorem lockstep_alternative : ∀ (orElse : Option (Block Node)) (s s' : State), s.Alike s' →
    Node.elseDecisions c s orElse = Node.elseDecisions (c.withOptions options) s' orElse →
    Lockstep (alternative c orElse) (alternative (c.withOptions options) orElse) s s'
      (OthersAlike c.schema)
  | none, s, s', hs, _ => lockstep_pure hs .nil
  | some ⟨pos, ns⟩, s, s', hs, hdecide => by
    have hnodes := lockstep_nodes ns .empty .empty _ _ hs.undeclared .nil hdecide
    refine (lockstep_body pos hs hnodes).bind fun g t g' t' _ _ hadvance hg =>
      lockstep_pure hadvance.alike ?_
    unfold OthersAlike
    rw [instrs_other, instrs_other]
    exact hg

end

end Compile

end Stencil
