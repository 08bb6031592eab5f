import Stencil.Compile.Node
import Stencil.Proofs.Pipelines
import Stencil.Proofs.Statements

/-!
# Compiled actions and calls

The code that is compiled for texts, actions and template calls. It is balanced, so it is a statement:
it leaves all stacks as they were, in every program whose templates do so.
-/

namespace Stencil

namespace Compile

/-- What is known about the code of a statement and about the state after compiling it. -/
structure Statement (c : Context) (s s' : State) (code : List Instr) (names : List Nat) : Prop
    extends Behaves c.set s'.tables code names where
  extends_ : s.tables.Extends s'.tables
  sound : s'.tables.Sound
  noPrint : s'.noPrint = false
  declared : s'.declared = names ++ s.declared

/-- Whether the code of a statement has been added to a fragment. -/
def AddsStatement (c : Context) (f : Fragment) (s : State) (f' : Fragment) (s' : State) : Prop :=
  ∃ code names, f'.instrs = f.instrs ++ code ∧ Statement c s s' code names

variable {c : Context} {pos : Pos} {s s' s'' s₁ : State} {f f' f'' : Fragment}
  {code rest condition : List Instr} {names : List Nat} {pop : Option Nat}

/-- No code is a statement of no names. -/
theorem statement_nil (hs : s.tables.Sound) (hprint : s.noPrint = false) : Statement c s s [] [] where
  extends_ := .refl _
  sound := hs
  noPrint := hprint
  declared := rfl
  closed := closed_nil
  neutral env _ _ := by
    rw [Env.runs_nil]
    exact Effect.neutral_skip
  careful env _ := by rw [Env.runs_nil, Env.runs_nil]

/-- Two statements one after the other are one. -/
theorem Statement.append {more : List Nat} (h : Statement c s s' code names)
    (h' : Statement c s' s'' rest more) : Statement c s s'' (code ++ rest) (more ++ names) where
  extends_ := h.extends_.trans h'.extends_
  sound := h'.sound
  noPrint := h'.noPrint
  declared := by rw [h'.declared, h.declared, List.append_assoc]
  closed := h.closed.append h'.closed
  neutral env hextends hcalls := by
    rw [Env.runs_append h.closed h'.closed]
    exact (h.neutral env (h'.extends_.trans hextends) hcalls).andThen (h'.neutral env hextends hcalls)
  careful env hextends := by
    rw [Env.runs_append h.closed h'.closed, Env.runs_append h.closed h'.closed,
      h.careful env (h'.extends_.trans hextends), h'.careful env hextends]

/-- Nothing that is added is a statement. -/
theorem addsStatement_refl (hs : s.tables.Sound) (hprint : s.noPrint = false) :
    AddsStatement c f s f s :=
  ⟨[], [], by simp, statement_nil hs hprint⟩

/-- What is added in two steps is a statement if both steps add one. -/
theorem AddsStatement.trans (h : AddsStatement c f s f' s') (h' : AddsStatement c f' s' f'' s'') :
    AddsStatement c f s f'' s'' := by
  obtain ⟨code, names, hcode, hstatement⟩ := h
  obtain ⟨rest, more, hrest, hstatement'⟩ := h'
  exact ⟨code ++ rest, more ++ names, by rw [hrest, hcode, List.append_assoc],
    hstatement.append hstatement'⟩

/-- Code that holds back a POP controls nothing. -/
theorem isControl_holdCode (pop : Option Nat) : ∀ i ∈ Fragment.holdCode pop, i.isControl := by
  unfold Fragment.holdCode
  split <;> simp [Instr.isControl]

/-- Balanced code is a statement. -/
theorem statement_balanced {after : Nat} (hemits : Emits s s' code) (hs : s.tables.Sound)
    (hprint : s'.noPrint = false) (hleaves : Leaves code 0 after)
    (hbalances : Fragment.Balances pop code) :
    Statement c s s' (Fragment.holdCode pop ++ code ++ popCode pop) (declaredBy code) where
  extends_ := hemits.extends_
  sound := hemits.sound hs
  noPrint := hprint
  declared := hemits.declared
  closed := ((Env.closed_holdCode pop).append hemits.straight.closed).append (closed_popCode pop)
  neutral env hextends _ :=
    Env.neutral_balanced hemits.straight hleaves hbalances fun i hi =>
      (hemits.valid hs i hi).mono hextends
  careful env _ := by
    have hsame : env.Runs code = (env.careful c.set).Runs code := by
      funext m o
      rw [Env.runs_straight env hemits.straight, Env.runs_straight (env.careful c.set) hemits.straight]
      rfl
    exact Env.runs_between_congr (env.similar_careful c.set) _ _ (isControl_holdCode pop)
      (Env.isControl_popCode pop) hemits.straight.closed hemits.straight.closed hsame

/-- Balancing compiled code is balancing the code. -/
theorem balance_of_balanced {g : Fragment} (h : balanced c pos f s = .ok (g, s')) :
    f.balance = .ok g := by
  cases hb : f.balance with
  | ok b =>
    rw [balanced, hb] at h
    cases h
    rfl
  | error e =>
    rw [balanced, hb] at h
    cases h

/-- Code that finds the values it may take can be balanced. -/
theorem ensures_balanced {after : Nat} (hstraight : Straight f.instrs) (hleaves : Leaves f.instrs 0 after) :
    Ensures (balanced c pos f) s fun g s' => s' = s ∧ ∃ h pop, g.takePop = (h, pop) ∧
      h.instrs = Fragment.holdCode pop ++ f.instrs ∧ g.instrs = h.instrs ++ popCode pop ∧
      Fragment.Balances pop f.instrs := by
  unfold balanced
  split
  · next g hg => exact ensures_pure ⟨rfl, Fragment.balance_eq_ok hstraight hg⟩
  · next e he => exact ensures_fail fun effect => Fragment.balance_ne_unbalanced hstraight hleaves he effect

/-! ### Texts and actions -/

/-- Writing a chunk of bytes is a statement. -/
theorem ensures_pushBytes_statement (bytes : ByteArray) (hs : s.tables.Sound) (hprint : s.noPrint = false) :
    Ensures (pushBytes c pos f bytes) s (AddsStatement c f s) := by
  apply (ensures_pushBytes f bytes).mono
  intro g s' hg
  obtain ⟨index, rfl, hgrows, hentry⟩ := hg
  have hwb : Emits s s' ([] ++ [.wb index]) :=
    hgrows.emits.trans (emits_singleton rfl (fun _ => Tables.lt_size_of_entry hentry) rfl)
  have hbalances : Fragment.Balances none ([] ++ [.wb index]) := ⟨rfl, rfl⟩
  exact ⟨_, _, by simp [Fragment.holdCode, popCode],
    statement_balanced hwb hs (hgrows.noPrint.trans hprint) leaves_singleton hbalances⟩

/-- Text adds a statement. -/
theorem ensures_text (str : String) (hs : s.tables.Sound) (hprint : s.noPrint = false) :
    Ensures (text c pos f str) s (AddsStatement c f s) := by
  unfold text
  simp only
  split
  · exact ensures_pure (addsStatement_refl hs hprint)
  · exact ensures_pushBytes_statement _ hs hprint

/-- Code that is too short is not folded. -/
theorem fold_of_size_le {body : Fragment} (h : body.size ≤ 1) : fold c pos body s = .ok (body, s) := by
  have hshort : ¬1 < body.size := by omega
  have hkept : ¬(c.options.foldConstants && decide (1 < body.size) &&
      body.code.all (isConstant s.tables)) = true := by
    simp [hshort]
  have hfold : fold c pos body s = (if c.options.foldConstants && decide (1 < body.size) &&
      body.code.all (isConstant s.tables) then _ else return body : M Fragment) s := rfl
  rw [hfold, if_neg hkept]
  rfl

/-- An asset hook has bytes that it writes. -/
theorem exists_assetBytes? (set : TemplateSet) {name : String} (h : isHook name) :
    ∃ bytes, assetBytes? set name = some bytes := by
  simp only [isHook, Bool.or_eq_true, beq_iff_eq] at h
  unfold assetBytes?
  rcases h with rfl | rfl
  · exact ⟨_, if_pos rfl⟩
  · split
    · exact ⟨_, rfl⟩
    · exact ⟨_, if_pos rfl⟩

/-- A pipeline that is nothing but an asset hook leaves no value. -/
theorem ensures_hook_pipeline {pipe : Pipeline} (hhook : pipe.isHook) :
    Ensures (pipeline c true pipe) s (AddsHook .empty s) := by
  unfold Pipeline.isHook at hhook
  split at hhook
  · next pos assign pos' pos'' name =>
    obtain ⟨bytes, hbytes⟩ := exists_assetBytes? c.set hhook
    have hoperand (argc : Nat) :
        Ensures (operand c argc .empty (.ident pos'' name)) s (AddsHook .empty s) :=
      .bind (ensures_hook argc hbytes) fun _ _ hadds => ensures_pure hadds
    have hcommand : Ensures (command c false .empty (.mk pos' [.ident pos'' name])) s
        (AddsHook .empty s) := by
      unfold command
      simp only
      split
      · exact .bind (hoperand _) fun _ _ hadds => ensures_pure hadds
      · exact ensures_fail fun _ => by simp
    have hcommands : Ensures (commands c false .empty [.mk pos' [.ident pos'' name]]) s
        (AddsHook .empty s) := .bind hcommand fun _ _ hadds => ensures_pure hadds
    refine .bind hcommands fun body s₁ hbody => ?_
    have hshort : body.size ≤ 1 := by
      obtain ⟨code, hlength, hcode, -⟩ := hbody
      rw [Fragment.size_eq_length, hcode]
      exact hlength
    have hfold : Ensures (fold c pos body) s₁ (AddsHook .empty s) := by
      unfold Ensures
      rw [fold_of_size_le hshort]
      exact hbody
    exact .bind hfold fun _ _ hadds => ensures_pure hadds
  · cases hhook

/-- The pipeline of an action leaves a value to print, unless nothing is to be printed. -/
theorem ensures_action_pipeline {pipe : Pipeline} (hwf : pipe.isHook || pipe.wellFormed 1)
    (hprint : s.noPrint = false) :
    Ensures (pipeline c true pipe) s fun g s' => Emits s s' g.instrs ∧
      ∃ after, Leaves g.instrs 0 after ∧ (pipe.decl = [] → s'.noPrint = false → 0 < after) := by
  rcases (Bool.or_eq_true _ _).mp hwf with hhook | hwf
  · apply (ensures_hook_pipeline hhook).mono
    intro g s' hadds
    obtain ⟨code, -, hcode, hemits, hnoPrint, hleaves⟩ := hadds
    have hcode : g.instrs = code := hcode
    rw [hcode]
    refine ⟨hemits, 0, hleaves, fun _ hfalse => ?_⟩
    rw [hnoPrint] at hfalse
    cases hfalse
  · apply (ensures_pipeline true 1 pipe s).mono
    intro g s' hadds
    obtain ⟨code, hcode, hemits, hleaves⟩ := hadds
    have hcode : g.instrs = code := hcode
    rw [hcode]
    refine ⟨hemits, _, (hleaves ⟨hwf, fun _ => Nat.le_refl 1⟩ hprint).2, fun hdecl _ => ?_⟩
    simp [hdecl]

/-- Code that prints a constant is the constant and a PRINT. -/
theorem instrs_of_printedConstant? {t : Tables} {str : String}
    (h : printedConstant? c t f.code = some str) : ∃ index, f.instrs = [.val index, .print] := by
  unfold printedConstant? at h
  split at h
  · next index hcode => exact ⟨index, hcode⟩
  · cases h

/-- An action prints the value of its pipeline, if it leaves one that is to be printed. -/
theorem ensures_action {pipe : Pipeline} (hwf : pipe.isHook || pipe.wellFormed 1)
    (hs : s.tables.Sound) (hprint : s.noPrint = false) :
    Ensures (action c pos f pipe) s (AddsStatement c f s) := by
  refine .bind (ensures_action_pipeline hwf hprint) fun g s₁ hg => ensures_get_bind ?_
  obtain ⟨hemits, after, hleaves, hafter⟩ := hg
  apply ensures_set_bind
  have hcode : ∃ after, Emits s { s₁ with noPrint := false }
      (if pipe.decl.isEmpty && !s₁.noPrint then g.push .print else g).instrs ∧
      Leaves (if pipe.decl.isEmpty && !s₁.noPrint then g.push .print else g).instrs 0 after := by
    split
    · next hprints =>
      simp only [Bool.and_eq_true, Bool.not_eq_true', List.isEmpty_iff] at hprints
      have hpos := hafter hprints.1 hprints.2
      rw [Fragment.instrs_push]
      have hprint : Emits s₁ s₁ [.print] := emits_singleton rfl (fun _ => trivial) rfl
      have hprints : Leaves [.print] after after := ⟨hpos, by simp [Leaves, Instr.takes, Instr.gives]; omega⟩
      exact ⟨after, (hemits.trans hprint).noPrint, hleaves.append hprints⟩
    · exact ⟨after, hemits.noPrint, hleaves⟩
  generalize (if pipe.decl.isEmpty && !s₁.noPrint then g.push .print else g) = h at hcode
  obtain ⟨after', hemits', hleaves'⟩ := hcode
  split
  · next str hprinted =>
    obtain ⟨index, hinstrs⟩ := instrs_of_printedConstant? hprinted
    have hnone : Statement c s { s₁ with noPrint := false } [] [] :=
      { statement_nil (hemits'.sound hs) rfl with
        extends_ := hemits'.extends_
        declared := by
          have hdeclared := hemits'.declared
          rw [hinstrs] at hdeclared
          exact hdeclared }
    have hstart : AddsStatement c f s f { s₁ with noPrint := false } := ⟨[], [], by simp, hnone⟩
    split
    · exact ensures_pure hstart
    · exact (ensures_pushBytes_statement _ hnone.sound rfl).mono fun g' s' hadds => hstart.trans hadds
  · refine .bind (ensures_balanced hemits'.straight hleaves') fun b s' hb => ensures_pure ?_
    obtain ⟨rfl, taken, pop, -, htaken, hbalanced, hbalances⟩ := hb
    refine ⟨_, _, ?_, statement_balanced hemits' hs rfl hleaves' hbalances⟩
    rw [Fragment.instrs_append, hbalanced, htaken]

/-! ### Template calls -/

/-- A template call behind balanced data is a statement. -/
theorem statement_call {after ns index : Nat} {name : String} (hemits : Emits s s₁ condition)
    (hgrows : Grows s₁ s') (hs : s.tables.Sound) (hprint : s'.noPrint = false)
    (hleaves : Leaves condition 0 after) (hafter : 0 < after)
    (hbalances : Fragment.Balances pop condition) (hns : ns < s'.tables.strings.size)
    (hname : s'.tables.strings[index]? = some name) (hcontains : c.set.contains name) :
    Statement c s s'
      (Fragment.holdCode pop ++ condition ++ .template ns index :: popCode pop)
      (declaredBy condition) where
  extends_ := hemits.extends_.trans hgrows.extends_
  sound := hgrows.sound (hemits.sound hs)
  noPrint := hprint
  declared := by rw [hgrows.declared, hemits.declared]
  closed := ((Env.closed_holdCode pop).append hemits.straight.closed).append (Env.closed_call ns index pop)
  neutral env hextends hcalls := by
    have hnames : env.Names c.set ns index :=
      ⟨Tables.lt_size_of_extends hextends.strings hns, name, hextends.strings _ _ hname, hcontains⟩
    obtain ⟨C, hC, hcall⟩ := hcalls ns index hnames
    have hruns : env.Runs (Fragment.holdCode pop ++ condition ++ .template ns index :: popCode pop) =
        Effect.evaluate env.schema env.tables condition C := by
      funext m o
      exact propext (Env.runs_call hemits.straight hleaves hafter hbalances
        (fun v => (hC v).toLocal) hcall)
    rw [hruns]
    exact Effect.neutral_evaluate hemits.straight hleaves
      (fun i hi => (hemits.valid hs i hi).mono (hgrows.extends_.trans hextends)) hC
  careful env hextends :=
    Env.runs_call_careful hemits.straight hleaves hafter
      ⟨Tables.lt_size_of_extends hextends.strings hns, name, hextends.strings _ _ hname, hcontains⟩

/-- The namespace of a callee is interned. -/
theorem ensures_callNamespace (target : String) :
    Ensures (callNamespace c pos target) s fun ns s' =>
      Grows s s' ∧ (s'.tables.Sound → ns < s'.tables.strings.size) := by
  refine .bind (ensures_intern _) fun ns s₁ hns => ?_
  split
  · exact ensures_pure ⟨hns.1, fun hs => Tables.lt_size_of_entry (hns.2 hs)⟩
  · exact ensures_fail fun _ => nofun

/-- The code of the data of a template call. -/
def templateData (c : Context) (pos : Pos) : Option Pipeline → M Fragment
  | some pipe => pipeline c true pipe
  | none => pushValue c pos .empty .nil

/-- The code of a template call behind the code of its data. -/
def templateBehind (c : Context) (pos : Pos) (f : Fragment) (name : String) (data : Fragment) :
    M Fragment := do
  let (g, pop) := (← balanced c pos data).takePop
  let ns ← callNamespace c pos name
  let index ← intern c pos name
  return ((f.append g).push (.template ns index)).addPop pop

/-- A call of a template of the set is compiled behind its data. -/
theorem templateCall_of_contains {name : String} {pipe : Option Pipeline}
    (hcontains : c.set.contains name = true) :
    templateCall c pos f name pipe = templateData c pos pipe >>= templateBehind c pos f name := by
  unfold templateCall
  rw [if_pos hcontains]
  cases pipe <;> rfl

/-- Other calls are refused. -/
theorem templateCall_of_not_contains {name : String} {pipe : Option Pipeline}
    (hcontains : ¬c.set.contains name = true) :
    templateCall c pos f name pipe = fail c pos (.undefinedTemplate name) := by
  unfold templateCall
  rw [if_neg hcontains]
  rfl

/-- A call of a template that is there adds a statement. -/
theorem ensures_templateBehind {g : Fragment} {name : String} (hg : Adds .empty s True 0 1 g s₁)
    (hs : s.tables.Sound) (hprint : s.noPrint = false) (hcontains : c.set.contains name) :
    Ensures (templateBehind c pos f name g) s₁ (AddsStatement c f s) := by
  obtain ⟨condition, hcode, hemits, hfacts⟩ := hg
  obtain ⟨hprint₁, hleaves⟩ := hfacts trivial hprint
  have hcode : g.instrs = condition := hcode
  subst hcode
  refine .bind (ensures_balanced hemits.straight hleaves) fun b s₂ hb => ?_
  obtain ⟨rfl, taken, pop, htake, htaken, -, hbalances⟩ := hb
  rw [htake]
  refine .bind (ensures_callNamespace name) fun ns s₃ hns => ?_
  refine .bind (ensures_intern name) fun index s₄ hindex => ensures_pure ?_
  have hgrows := hns.1.trans hindex.1
  have hsound := hemits.sound hs
  have hsize := Tables.lt_size_of_extends hindex.1.extends_.strings (hns.2 (hns.1.sound hsound))
  refine ⟨_, _, ?_, statement_call hemits hgrows hs (hgrows.noPrint.trans hprint₁) hleaves Nat.one_pos
    hbalances hsize (hindex.2 (hgrows.sound hsound)) hcontains⟩
  simp [htaken]

/-- A well-formed pipeline declares no more variables than it may. -/
theorem decl_of_wellFormed {vars : Nat} {pipe : Pipeline} (h : pipe.wellFormed vars) :
    pipe.decl.length ≤ vars := by
  unfold Pipeline.wellFormed at h
  split at h
  · cases h
  · simp only [Bool.and_eq_true, decide_eq_true_eq] at h
    exact h.1.1

/-- A template call is made with the value of its pipeline, or with nil. -/
theorem ensures_templateCall {name : String} {pipe : Option Pipeline}
    (hwf : ∀ p, pipe = some p → p.wellFormed 0) (hs : s.tables.Sound) (hprint : s.noPrint = false) :
    Ensures (templateCall c pos f name pipe) s (AddsStatement c f s) := by
  by_cases hcontains : c.set.contains name = true
  · rw [templateCall_of_contains hcontains]
    cases pipe with
    | some p =>
      have hp : p.wellFormed 0 := hwf p rfl
      refine .bind (ensures_pipeline true 0 p s) fun g s₁ hadds => ?_
      have hone : Adds .empty s True 0 (1 - if true then p.decl.length else 0) g s₁ :=
        hadds.imp fun _ => ⟨hp, fun _ => Nat.zero_le 1⟩
      rw [Nat.le_zero.mp (decl_of_wellFormed hp)] at hone
      exact ensures_templateBehind hone hs hprint hcontains
    | none =>
      refine .bind (ensures_pushValue .empty .nil) fun g s₁ hg => ?_
      obtain ⟨index, rfl, hgrows, hentry⟩ := hg
      have hone : Adds .empty s True 0 1 (Fragment.empty.push (.val index)) s₁ :=
        adds_value (.val index) 0 hgrows rfl (fun _ => Tables.lt_size_of_entry hentry) rfl rfl rfl
      exact ensures_templateBehind hone hs hprint hcontains
  · rw [templateCall_of_not_contains hcontains]
    exact ensures_fail fun _ => nofun

end Compile
end Stencil
