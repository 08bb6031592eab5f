import Stencil.Proofs.Enclosing
import Stencil.Proofs.Lexical
import Stencil.Proofs.Placement
import Stencil.Proofs.Variables

/-!
# Compiled scopes

The code of a template is lexically scoped if its ranges have no more than two variables: what a body
declares is removed at its end, in the reverse order, and only the variables of the condition stay.
The code of each pipeline lies in it as a piece that can only be entered at its start. Nothing else has
to be known about the template, which may well be compiled to code that runs out of values.
-/

namespace Stencil

mutual

/-- The variables that the code of a node binds anywhere. -/
def Node.bindings : Node → List Binding
  | .list ⟨_, nodes⟩ => Node.allBindings nodes
  | .action _ pipe => pipe.bindings
  | .branch _ _ pipe ⟨_, nodes⟩ orElse =>
    pipe.bindings ++ Node.allBindings nodes ++ Node.elseBindings orElse
  | .template _ _ (some pipe) => pipe.bindings
  | _ => []

/-- The variables that the code of nodes binds anywhere. -/
def Node.allBindings : List Node → List Binding
  | [] => []
  | node :: rest => node.bindings ++ Node.allBindings rest

/-- The variables that the code of an alternative binds anywhere. -/
def Node.elseBindings : Option (Block Node) → List Binding
  | none => []
  | some ⟨_, nodes⟩ => Node.allBindings nodes

end

mutual

/-- Whether no range in a node has more than two variables. -/
def Node.bindsElements : Node → Bool
  | .list ⟨_, nodes⟩ => Node.allBindElements nodes
  | .branch kind _ pipe ⟨_, nodes⟩ orElse =>
    (kind != .range || decide (pipe.decl.length ≤ 2)) && Node.allBindElements nodes &&
      Node.elseBindsElements orElse
  | _ => true

/-- Whether no range in nodes has more than two variables. -/
def Node.allBindElements : List Node → Bool
  | [] => true
  | node :: rest => node.bindsElements && Node.allBindElements rest

/-- Whether no range in an alternative has more than two variables. -/
def Node.elseBindsElements : Option (Block Node) → Bool
  | none => true
  | some ⟨_, nodes⟩ => Node.allBindElements nodes

end

/-- A pipeline of a node, and whether it binds its variables itself; the condition of a branch does
not. -/
structure NodePipeline where
  binds : Bool
  pipe : Pipeline

mutual

/-- The pipelines of a node and of the nodes in it. -/
def Node.pipelines : Node → List NodePipeline
  | .list ⟨_, nodes⟩ => Node.allPipelines nodes
  | .action _ pipe => [⟨true, pipe⟩]
  | .branch _ _ pipe ⟨_, nodes⟩ orElse =>
    ⟨false, pipe⟩ :: (Node.allPipelines nodes ++ Node.elsePipelines orElse)
  | .template _ _ (some pipe) => [⟨true, pipe⟩]
  | _ => []

/-- The pipelines of nodes. -/
def Node.allPipelines : List Node → List NodePipeline
  | [] => []
  | node :: rest => node.pipelines ++ Node.allPipelines rest

/-- The pipelines of an alternative. -/
def Node.elsePipelines : Option (Block Node) → List NodePipeline
  | none => []
  | some ⟨_, nodes⟩ => Node.allPipelines nodes

end

/-! ### Well-formed nodes -/

mutual

/-- The ranges of a well-formed node have no more than two variables. -/
theorem Node.bindsElements_of_wellFormed : ∀ n : Node, n.wellFormed → n.bindsElements
  | .list ⟨_, nodes⟩, h => Node.allBindElements_of_wellFormed nodes h
  | .branch kind pos pipe ⟨bodyPos, nodes⟩ orElse, h => by
    simp only [Node.wellFormed, Bool.and_eq_true] at h
    have hdecl := Compile.decl_of_wellFormed h.1.1
    have hvars : kind != .range || decide (pipe.decl.length ≤ 2) := by
      cases kind
      · rfl
      · rfl
      · simpa [BranchKind.vars] using hdecl
    simp only [Node.bindsElements, Bool.and_eq_true]
    exact ⟨⟨hvars, Node.allBindElements_of_wellFormed nodes h.1.2⟩,
      Node.elseBindsElements_of_wellFormed orElse h.2⟩
  | .text .., _ | .action .., _ | .comment .., _ | .template .., _ | .breakLoop _, _
  | .continueLoop _, _ => rfl

/-- The ranges of well-formed nodes bind their elements only. -/
theorem Node.allBindElements_of_wellFormed : ∀ ns : List Node,
    Node.allWellFormed ns → Node.allBindElements ns
  | [], _ => rfl
  | n :: rest, h => by
    simp only [Node.allWellFormed, Bool.and_eq_true] at h
    simp only [Node.allBindElements, Bool.and_eq_true]
    exact ⟨Node.bindsElements_of_wellFormed n h.1, Node.allBindElements_of_wellFormed rest h.2⟩

/-- So do those of a well-formed alternative. -/
theorem Node.elseBindsElements_of_wellFormed : ∀ orElse : Option (Block Node),
    Node.elseWellFormed orElse → Node.elseBindsElements orElse
  | none, _ => rfl
  | some ⟨_, nodes⟩, h => Node.allBindElements_of_wellFormed nodes h

end

/-! ### What instructions refer to -/

namespace Instr

/-- Whether an instruction neither calls a template nor binds a variable. -/
def isQuiet : Instr → Bool
  | template .. | setVar .. => false
  | _ => true

/-- Whether an instruction calls a function or may call a method. -/
def isCall : Instr → Bool
  | func .. | field .. => true
  | _ => false

/-- Whether the operands of an instruction of the template `caller` refer to what they should: a call
to a template and to its namespace as seen from the caller, a binding to one of the given variables. -/
def Refers (caller : String) (t : Tables) (bindings : List Binding) : Instr → Prop
  | template ns index => ∃ target, t.strings[index]? = some target ∧
    t.strings[ns]? = some (Namespace.relative (Namespace.of caller) (Namespace.of target))
  | setVar name _ => ∃ b ∈ bindings, t.strings[name]? = some b.variable_.name
  | _ => True

variable {caller : String} {t t' : Tables} {bindings more : List Binding} {i : Instr}

/-- A quiet instruction refers to no variable. -/
theorem refers_of_isQuiet (hi : i.isQuiet) : i.Refers caller t bindings := by
  cases i <;> trivial

/-- What an instruction refers to stays there when tables grow and more is bound. -/
theorem Refers.mono (h : i.Refers caller t bindings) (hextends : t.Extends t')
    (hmore : bindings ⊆ more) : i.Refers caller t' more := by
  cases i with
  | template ns index =>
    obtain ⟨target, hname, hns⟩ := h
    exact ⟨target, hextends.strings _ _ hname, hextends.strings _ _ hns⟩
  | setVar name assign =>
    obtain ⟨b, hb, hname⟩ := h
    exact ⟨b, hmore hb, hextends.strings _ _ hname⟩
  | _ => trivial

end Instr

namespace Compile

/-- What holds back a `POP` is quiet. -/
theorem isQuiet_holdCode (pop : Option Nat) : ∀ i ∈ Fragment.holdCode pop, i.isQuiet := by
  unfold Fragment.holdCode
  split <;> simp [Instr.isQuiet]

/-- A `POP` that may be missing is quiet. -/
theorem isQuiet_popCode (pop : Option Nat) : ∀ i ∈ popCode pop, i.isQuiet := by
  cases pop <;> simp [popCode, Instr.isQuiet]

/-- Ending variables is quiet. -/
theorem isQuiet_unsetCode (names : List Nat) : ∀ i ∈ unsetCode names, i.isQuiet := by
  simp [unsetCode, Instr.isQuiet]

/-- The instructions of a branch are those of its bodies, those that bind its variables, and others
that neither call a template nor bind a variable. -/
theorem forall_branchCode {P : Instr → Prop} {kind : BranchKind} {assign : Bool} {decl : List Nat}
    {pop : Option Nat} {body : List Instr} {orElse : Option (List Instr)}
    (hquiet : ∀ i : Instr, i.isQuiet → P i) (hdecl : ∀ name ∈ decl, P (.setVar name assign))
    (hbody : ∀ i ∈ body, P i) (horElse : ∀ i ∈ orElse.getD [], P i) :
    ∀ i ∈ branchCode kind assign decl pop body orElse, P i := by
  have hpop (n : Option Nat) : ∀ i ∈ popCode n, P i := fun i hi => hquiet i (isQuiet_popCode n i hi)
  have hgiveUp (names : List Nat) : ∀ i ∈ (if assign then [] else unsetCode names), P i := by
    split
    · exact fun _ hi => nomatch hi
    · exact fun i hi => hquiet i (isQuiet_unsetCode names i hi)
  have halternative (other : Option (List Instr)) (h : ∀ i ∈ other.getD [], P i) :
      ∀ i ∈ alternativeCode other, P i := by
    cases other with
    | none => exact fun _ hi => nomatch hi
    | some code => exact List.forall_mem_cons.mpr ⟨hquiet _ rfl, h⟩
  have hconditional (code : List Instr) (other : Option (List Instr)) (hcode : ∀ i ∈ code, P i)
      (h : ∀ i ∈ other.getD [], P i) : ∀ i ∈ conditionalCode code other, P i :=
    List.forall_mem_cons.mpr
      ⟨hquiet _ rfl, List.forall_mem_append.mpr ⟨hcode, halternative other h⟩⟩
  have hbound : ∀ i ∈ boundCode assign decl pop body, P i := by
    cases decl with
    | nil => exact hbody
    | cons name names =>
      simp only [boundCode, List.forall_mem_append, List.forall_mem_singleton]
      exact ⟨⟨⟨hdecl name List.mem_cons_self, hbody⟩, hgiveUp [name]⟩, hpop _⟩
  have hother : ∀ i ∈ (otherCode decl pop orElse).getD [], P i := by
    rw [getD_otherCode, List.forall_mem_append]
    refine ⟨horElse, ?_⟩
    split
    · exact fun _ hi => nomatch hi
    · exact hpop _
  have hbind : ∀ i ∈ bindCode assign decl, P i := by
    rcases decl with _ | ⟨key, _ | ⟨value, rest⟩⟩
    · simpa [bindCode] using hquiet (.pop 2) rfl
    · simpa [bindCode] using ⟨hdecl key (by simp), hquiet (.pop 1) rfl⟩
    · simpa [bindCode] using ⟨hdecl value (by simp), hdecl key (by simp)⟩
  cases kind with
  | ifThen => exact List.forall_mem_append.mpr ⟨hconditional _ _ hbound hother, hpop _⟩
  | withDot =>
    refine List.forall_mem_append.mpr ⟨hconditional _ _ ?_ hother, hpop _⟩
    simp only [List.forall_mem_cons, List.forall_mem_append]
    exact ⟨hquiet .pushDot rfl, hbound, hquiet .popDot rfl, fun _ hi => nomatch hi⟩
  | range =>
    have hturn : ∀ i ∈ turnCode assign decl body, P i := by
      simp only [turnCode, List.forall_mem_cons, List.forall_mem_append]
      exact ⟨hquiet .pushDot rfl, ⟨⟨hbind, hbody⟩, hgiveUp decl⟩, hquiet .popDot rfl,
        fun _ hi => nomatch hi⟩
    have hloop : ∀ i ∈ loopCode (turnCode assign decl body) orElse, P i := by
      refine List.forall_mem_append.mpr ⟨?_, List.forall_mem_append.mpr
        ⟨hturn, List.forall_mem_cons.mpr ⟨hquiet _ rfl, halternative orElse horElse⟩⟩⟩
      cases orElse with
      | none => simpa using hquiet (.next _) rfl
      | some code =>
        simp only [List.forall_mem_cons]
        exact ⟨hquiet _ rfl, hquiet _ rfl, hquiet _ rfl, fun _ hi => nomatch hi⟩
    exact List.forall_mem_cons.mpr ⟨hquiet _ rfl, List.forall_mem_append.mpr ⟨hloop, hpop _⟩⟩

/-! ### What is written for a piece of a template -/

variable {c : Context} {pos : Pos} {s s' s'' s₁ : State} {f f' f'' g : Fragment}
  {elements elements' : Prop} {t t' : Tables} {code rest whole whole' : List Instr}
  {names names' : List Nat} {bindings more : List Binding} {pipes pipes' : List NodePipeline}
  {pipe : NodePipeline}

/-- Whether the code of a pipeline lies in other code, where it can only be entered at its start. Code
that neither calls nor binds anything may have been left out. -/
def Holds (c : Context) (t : Tables) (whole : List Instr) (pipe : NodePipeline) : Prop :=
  ∃ s g s', s.tables.Sound ∧ pipeline c pipe.binds pipe.pipe s = .ok (g, s') ∧ s'.tables.Extends t ∧
    Straight g.instrs ∧ (Enclosed g.instrs whole ∨ ∀ i ∈ g.instrs, i.isCall = false ∧ i.isQuiet)

/-- Code that holds a pipeline does so inside more code and with larger tables. -/
theorem Holds.mono (h : Holds c t whole pipe) (hwhole : Enclosed whole whole')
    (hextends : t.Extends t') : Holds c t' whole' pipe := by
  obtain ⟨s, g, s', hs, hrun, ht, hstraight, hplace⟩ := h
  exact ⟨s, g, s', hs, hrun, ht.trans hextends, hstraight, hplace.imp_left fun h => h.trans hwhole⟩

/-- What compiling a piece of a template does to the state, and what is known about its code. It is
lexically scoped if `elements` holds. -/
structure Writes (c : Context) (elements : Prop) (s s' : State) (code : List Instr) (names : List Nat)
    (bindings : List Binding) (pipes : List NodePipeline) : Prop where
  extends_ : s.tables.Extends s'.tables
  sound : s.tables.Sound → s'.tables.Sound
  declared : s'.declared = names ++ s.declared
  lexical : elements → Lexical code names
  refers : s.tables.Sound → ∀ i ∈ code, i.Refers c.name s'.tables bindings
  closed : Closed code
  holds : s.tables.Sound → ∀ pipe ∈ pipes, Holds c s'.tables code pipe

/-- Whether the code of a piece of a template has been added to a fragment. -/
def AddsWritten (c : Context) (elements : Prop) (bindings : List Binding) (pipes : List NodePipeline)
    (f : Fragment) (s : State) (f' : Fragment) (s' : State) : Prop :=
  ∃ code names, f'.instrs = f.instrs ++ code ∧ Writes c elements s s' code names bindings pipes

/-- What only grows writes no code. -/
theorem Grows.writes (h : Grows s s') : Writes c elements s s' [] [] bindings [] where
  extends_ := h.extends_
  sound := h.sound
  declared := h.declared
  lexical _ := lexical_nil
  refers _ _ hi := nomatch hi
  closed := closed_nil
  holds _ _ hpipe := nomatch hpipe

/-- Codes that are written one after the other are written together. -/
theorem Writes.append (h : Writes c elements s s' code names bindings pipes)
    (h' : Writes c elements s' s'' rest names' more pipes') :
    Writes c elements s s'' (code ++ rest) (names' ++ names) (bindings ++ more) (pipes ++ pipes') where
  extends_ := h.extends_.trans h'.extends_
  sound hs := h'.sound (h.sound hs)
  declared := by rw [h'.declared, h.declared, List.append_assoc]
  lexical he := (h.lexical he).append (h'.lexical he)
  refers hs := by
    refine List.forall_mem_append.mpr ⟨fun i hi => ?_, fun i hi => ?_⟩
    · exact (h.refers hs i hi).mono h'.extends_ (List.subset_append_left _ _)
    · exact (h'.refers (h.sound hs) i hi).mono (.refl _) (List.subset_append_right _ _)
  closed := h.closed.append h'.closed
  holds hs := List.forall_mem_append.mpr
    ⟨fun pipe hpipe => (h.holds hs pipe hpipe).mono (.append_left code h'.closed) h'.extends_,
      fun pipe hpipe => (h'.holds (h.sound hs) pipe hpipe).mono (.append_right h.closed rest) (.refl _)⟩

/-- What has been written may be told with more bindings and under a stronger condition. -/
theorem Writes.mono (h : Writes c elements s s' code names bindings pipes)
    (helements : elements' → elements) (hmore : bindings ⊆ more) :
    Writes c elements' s s' code names more pipes where
  extends_ := h.extends_
  sound := h.sound
  declared := h.declared
  lexical he := h.lexical (helements he)
  refers hs i hi := (h.refers hs i hi).mono (.refl _) hmore
  closed := h.closed
  holds := h.holds

/-- Whether the action prints does not matter to what has been written. -/
theorem Writes.noPrint (h : Writes c elements s s' code names bindings pipes) {b : Bool} :
    Writes c elements s { s' with noPrint := b } code names bindings pipes :=
  ⟨h.extends_, h.sound, h.declared, h.lexical, h.refers, h.closed, h.holds⟩

/-- Code that has nothing to do with names can be put around other code. -/
theorem Writes.between {front back : List Instr}
    (h : Writes c elements s s' code names bindings pipes) (hfront : Lexical front [])
    (hback : Lexical back []) (hquiet : ∀ i ∈ front, i.isQuiet) (hquiet' : ∀ i ∈ back, i.isQuiet) :
    Writes c elements s s' (front ++ code ++ back) names bindings pipes where
  extends_ := h.extends_
  sound := h.sound
  declared := h.declared
  lexical he := by
    have hcode := (hfront.append (h.lexical he)).append hback
    rwa [List.append_nil] at hcode
  refers hs :=
    List.forall_mem_append.mpr ⟨List.forall_mem_append.mpr
      ⟨fun i hi => Instr.refers_of_isQuiet (hquiet i hi), h.refers hs⟩,
      fun i hi => Instr.refers_of_isQuiet (hquiet' i hi)⟩
  closed := (hfront.closed.append h.closed).append hback.closed
  holds hs pipe hpipe := (h.holds hs pipe hpipe).mono (.between hfront.closed hback.closed code) (.refl _)

/-- Nothing that is added is written. -/
theorem addsWritten_refl (f : Fragment) (s : State) : AddsWritten c elements [] [] f s f s :=
  ⟨[], [], by simp, (Grows.refl s).writes⟩

/-- What is added in two steps is written together. -/
theorem AddsWritten.trans (h : AddsWritten c elements bindings pipes f s f' s')
    (h' : AddsWritten c elements more pipes' f' s' f'' s'') :
    AddsWritten c elements (bindings ++ more) (pipes ++ pipes') f s f'' s'' := by
  obtain ⟨code, names, hcode, hwrites⟩ := h
  obtain ⟨rest, names', hrest, hwrites'⟩ := h'
  exact ⟨code ++ rest, names' ++ names, by rw [hrest, hcode, List.append_assoc], hwrites.append hwrites'⟩

/-- What is written may be told under a stronger condition. -/
theorem AddsWritten.imp (h : AddsWritten c elements bindings pipes f s f' s')
    (helements : elements' → elements) : AddsWritten c elements' bindings pipes f s f' s' := by
  obtain ⟨code, names, hcode, hwrites⟩ := h
  exact ⟨code, names, hcode, hwrites.mono helements (List.Subset.refl _)⟩

/-! ### Pipelines -/

/-- The code of a pipeline is straight and binds the variables of the pipeline. -/
def EmitsBindings (bindings : List Binding) (s : State) (g : Fragment) (s' : State) : Prop :=
  Emits s s' g.instrs ∧ (s.tables.Sound → Binds s'.tables g.instrs bindings)

/-- A pipeline emits the code that binds its variables. -/
theorem EmitsBindings.of_adds {wf : Prop} {before after : Nat}
    (h : Adds .empty s wf before after g s') (hbinds : AddsBindings bindings .empty s g s') :
    EmitsBindings bindings s g s' := by
  obtain ⟨code, hcode, hemits, -⟩ := h
  obtain ⟨code', hcode', -, hbinds⟩ := hbinds
  have hcode : g.instrs = code := hcode
  have hcode' : g.instrs = code' := hcode'
  subst hcode hcode'
  exact ⟨hemits, fun hs => (hbinds hs).2⟩

/-- A pipeline binds its variables. -/
theorem yields_emitsBindings (pipe : Pipeline) :
    Yields (pipeline c true pipe) s (EmitsBindings pipe.bindings s) := fun g s' hrun =>
  .of_adds ((ensures_pipeline true 0 pipe s).of_ok hrun) (yields_pipeline pipe s g s' hrun)

/-- The pipeline of a condition binds the variables inside it. -/
theorem yields_condition_emitsBindings (pipe : Pipeline) :
    Yields (pipeline c false pipe) s (EmitsBindings pipe.innerBindings s) := fun g s' hrun =>
  .of_adds ((ensures_pipeline false 0 pipe s).of_ok hrun) (yields_condition pipe s g s' hrun)

/-- A straight instruction binds a variable or refers to no name. -/
theorem refers_of_binds {caller : String} {t : Tables} (hbinds : Binds t code bindings)
    (hstraight : Straight code) : ∀ i ∈ code, i.Refers caller t bindings := by
  intro i hi
  cases i with
  | setVar name assign =>
    obtain ⟨b, hb, hname, -⟩ := hbinds.exists_of_mem hi
    exact ⟨b, hb, hname⟩
  | template ns index => cases hstraight _ hi
  | _ => trivial

/-- The code of a pipeline is written. -/
theorem EmitsBindings.writes (h : EmitsBindings bindings s g s') :
    Writes c elements s s' g.instrs (declaredBy g.instrs) bindings [] where
  extends_ := h.1.extends_
  sound := h.1.sound
  declared := h.1.declared
  lexical _ := h.1.straight.lexical
  refers hs := refers_of_binds (h.2 hs) h.1.straight
  closed := h.1.straight.closed
  holds _ _ hpipe := nomatch hpipe

/-- The code of a pipeline holds the pipeline. -/
theorem EmitsBindings.writes_pipeline (h : EmitsBindings bindings s g s')
    (hrun : pipeline c pipe.binds pipe.pipe s = .ok (g, s')) :
    Writes c elements s s' g.instrs (declaredBy g.instrs) bindings [pipe] :=
  { (h.writes : Writes c elements s s' g.instrs (declaredBy g.instrs) bindings []) with
    holds := fun hs => List.forall_mem_singleton.mpr
      ⟨s, g, s', hs, hrun, .refl _, h.1.straight, .inl (.refl g.instrs)⟩ }

/-- Balanced straight-line code stays what it is between a `MARK` and a `POP`. -/
theorem yields_balanced (hstraight : Straight f.instrs) :
    Yields (balanced c pos f) s fun g s' => s' = s ∧ ∃ h pop, g.takePop = (h, pop) ∧
      h.instrs = Fragment.holdCode pop ++ f.instrs ∧ g.instrs = h.instrs ++ popCode pop := by
  unfold balanced
  split
  · next g hg =>
    obtain ⟨h, pop, htake, hheld, hcode, -⟩ := Fragment.balance_eq_ok hstraight hg
    exact yields_pure ⟨rfl, h, pop, htake, hheld, hcode⟩
  · exact yields_fail

/-! ### Nodes without bodies -/

/-- Writing bytes is written code. -/
theorem yields_pushBytes (bytes : ByteArray) :
    Yields (pushBytes c pos f bytes) s (AddsWritten c elements [] [] f s) :=
  (ensures_pushBytes f bytes).yields.mono fun _ _ hg => by
    obtain ⟨index, rfl, hgrows, -⟩ := hg
    have hwb : Lexical [.wb index] [] := lexical_control rfl rfl fun _ => nofun
    refine ⟨[] ++ [] ++ [.wb index], [], by simp, hgrows.writes.between lexical_nil hwb ?_ ?_⟩
    · exact fun _ hi => nomatch hi
    · simp [Instr.isQuiet]

/-- Text is written code. -/
theorem yields_text (str : String) :
    Yields (text c pos f str) s (AddsWritten c elements [] [] f s) := by
  unfold text
  simp only
  split
  · exact yields_pure (addsWritten_refl f s)
  · exact yields_pushBytes _

/-- The code of an action is written and holds its pipeline. -/
theorem yields_action (pipe : Pipeline) :
    Yields (action c pos f pipe) s (AddsWritten c elements pipe.bindings [⟨true, pipe⟩] f s) := by
  refine .bind (yields_self _) fun g s₁ hrun => yields_get_bind (yields_set_bind ?_)
  have hg := yields_emitsBindings pipe g s₁ hrun
  have hprints : ∃ tail, (if pipe.decl.isEmpty && !s₁.noPrint then g.push .print else g).instrs =
      g.instrs ++ tail ∧ Straight tail ∧ Lexical tail [] ∧ ∀ i ∈ tail, i.isQuiet := by
    split
    · refine ⟨[.print], Fragment.instrs_push g _, straight_singleton rfl, ?_, by simp [Instr.isQuiet]⟩
      exact lexical_control rfl rfl fun _ => nofun
    · exact ⟨[], by simp, straight_nil, lexical_nil, fun _ hi => nomatch hi⟩
  generalize (if pipe.decl.isEmpty && !s₁.noPrint then g.push .print else g) = h at hprints
  obtain ⟨tail, hcode, hstraight, hlexical, hquiet⟩ := hprints
  have hwrites : Writes c elements s { s₁ with noPrint := false } g.instrs (declaredBy g.instrs)
      pipe.bindings [⟨true, pipe⟩] := (EmitsBindings.writes_pipeline hg hrun).noPrint
  split
  · next str hprinted =>
    -- The code is dropped; it has declared nothing and called nothing.
    obtain ⟨index, hinstrs⟩ := instrs_of_printedConstant? hprinted
    have hinstr (i : Instr) (hi : i ∈ g.instrs) : i = .val index ∨ i = .print := by
      have hmem : i ∈ h.instrs := hcode ▸ List.mem_append_left tail hi
      rwa [hinstrs, List.mem_cons, List.mem_singleton] at hmem
    have hnone : declaredBy g.instrs = [] := by
      apply declaredBy_eq_nil
      intro i hi
      rcases hinstr i hi with rfl | rfl <;> rfl
    have hdropped (hs : s.tables.Sound) : Holds c s₁.tables [] ⟨true, pipe⟩ := by
      refine ⟨s, g, s₁, hs, hrun, .refl _, hg.1.straight, .inr fun i hi => ?_⟩
      rcases hinstr i hi with rfl | rfl <;> exact ⟨rfl, rfl⟩
    have hstart : AddsWritten c elements pipe.bindings [⟨true, pipe⟩] f s f
        { s₁ with noPrint := false } := by
      refine ⟨[], [], by simp, hwrites.extends_, hwrites.sound, ?_, fun _ => lexical_nil,
        fun _ _ hi => (nomatch hi), closed_nil, fun hs => List.forall_mem_singleton.mpr (hdropped hs)⟩
      rw [hwrites.declared, hnone]
    split
    · exact yields_pure hstart
    · exact (yields_pushBytes _).mono fun g' s' hadds => by
        have hboth := hstart.trans hadds
        rwa [List.append_nil, List.append_nil] at hboth
  · have hbody : Straight h.instrs := hcode ▸ hg.1.straight.append hstraight
    refine .bind (yields_balanced hbody) fun b s' hb => yields_pure ?_
    obtain ⟨rfl, held, pop, -, hheld, hbalanced⟩ := hb
    have htail : Lexical (tail ++ popCode pop) [] := hlexical.append (lexical_popCode pop)
    refine ⟨_, _, ?_, hwrites.between (lexical_holdCode pop) htail (isQuiet_holdCode pop) ?_⟩
    · rw [Fragment.instrs_append, hbalanced, hheld, hcode]
      simp
    · exact List.forall_mem_append.mpr ⟨hquiet, isQuiet_popCode pop⟩

/-- The namespace of a call is that of its target as seen from the caller. -/
theorem yields_callNamespace (target : String) :
    Yields (callNamespace c pos target) s fun ns s' => Grows s s' ∧ (s'.tables.Sound →
      s'.tables.strings[ns]? =
        some (Namespace.relative (Namespace.of c.name) (Namespace.of target))) := by
  refine .bind (ensures_intern _).yields fun ns s₁ hns => ?_
  split
  · exact yields_pure hns
  · exact yields_fail

/-- The code of a template call is written and holds its pipeline. -/
theorem yields_templateBehind (target : String) (hstraight : Straight g.instrs)
    (hg : Writes c elements s s₁ g.instrs names bindings pipes) :
    Yields (templateBehind c pos f target g) s₁ (AddsWritten c elements bindings pipes f s) := by
  refine .bind (yields_balanced hstraight) fun b s₂ hb => ?_
  obtain ⟨rfl, held, pop, htake, hheld, -⟩ := hb
  rw [htake]
  refine .bind (yields_callNamespace target) fun ns s₃ hns => ?_
  refine .bind (ensures_intern target).yields fun index s₄ hindex => yields_pure ?_
  have hgrows := hns.1.trans hindex.1
  have hcall : Writes c elements s₂ s₄ [.template ns index] [] [] [] := by
    refine ⟨hgrows.extends_, hgrows.sound, hgrows.declared, fun _ => ?_, fun hs i hi => ?_,
      closed_cons rfl closed_nil, fun _ _ hpipe => nomatch hpipe⟩
    · exact lexical_control rfl rfl fun _ => nofun
    · obtain rfl := List.mem_singleton.mp hi
      have hs₃ := hns.1.sound hs
      exact ⟨target, hindex.2 (hindex.1.sound hs₃), hindex.1.extends_.strings _ _ (hns.2 hs₃)⟩
  have hwhole := (hg.append hcall).between (lexical_holdCode pop) (lexical_popCode pop)
    (isQuiet_holdCode pop) (isQuiet_popCode pop)
  rw [List.append_nil, List.append_nil] at hwhole
  refine ⟨_, _, ?_, hwhole⟩
  simp [hheld]

/-- A template call is compiled behind its data if there is a template of its name. -/
theorem Yields.templateCall {name : String} {pipe : Option Pipeline} {Q : Fragment → State → Prop}
    (h : c.set.contains name = true → Yields (templateData c pos pipe) s fun g s₁ =>
      Yields (templateBehind c pos f name g) s₁ Q) :
    Yields (Compile.templateCall c pos f name pipe) s Q := by
  by_cases hcontains : c.set.contains name = true
  · rw [templateCall_of_contains hcontains]
    exact (h hcontains).bind fun _ _ hbehind => hbehind
  · rw [templateCall_of_not_contains hcontains]
    exact yields_fail

/-- A template call binds what its pipeline binds. -/
theorem yields_templateCall (name : String) (pipe : Option Pipeline) :
    Yields (templateCall c pos f name pipe) s
      (AddsWritten c elements (Node.template pos name pipe).bindings
        (Node.template pos name pipe).pipelines f s) := by
  refine .templateCall fun hcontains => ?_
  cases pipe with
  | some pipe =>
    refine (yields_self _).mono fun g s₁ hrun => ?_
    have hg := yields_emitsBindings pipe g s₁ hrun
    exact yields_templateBehind name hg.1.straight (hg.writes_pipeline hrun)
  | none =>
    refine (ensures_pushValue .empty .nil).yields.mono fun g s₁ hg => ?_
    obtain ⟨index, rfl, hgrows, hentry⟩ := hg
    have hval : Emits s s₁ ([] ++ [.val index]) :=
      hgrows.emits.trans (emits_singleton rfl (fun _ => Tables.lt_size_of_entry hentry) rfl)
    have hpush : EmitsBindings [] s (Fragment.empty.push (.val index)) s₁ :=
      ⟨hval, fun _ => binds_of_binding? rfl⟩
    exact yields_templateBehind name hpush.1.straight hpush.writes

/-! ### Branches -/

/-- The body of a branch removes the variables that it declares. -/
theorem yields_inScope {x : M Fragment}
    (h : Yields x { s with declared := [] }
      (AddsWritten c elements bindings pipes .empty { s with declared := [] })) :
    Yields (inScope x) s fun f s' => Writes c elements s s' f.instrs [] bindings pipes := by
  intro f s' hrun
  obtain ⟨g, s₁, hx, rfl, hcode⟩ := inScope_eq_ok hrun
  obtain ⟨code, names, hadds, hwrites⟩ := h g s₁ hx
  have hadds : g.instrs = code := hadds
  have hnames : s₁.declared = names ++ [] := hwrites.declared
  rw [hcode, hadds, hnames, List.append_nil]
  refine ⟨hwrites.extends_, hwrites.sound, rfl, fun he => ?_, fun hs => ?_,
    hwrites.closed.append (closed_unsetCode names), fun hs pipe hpipe => ?_⟩
  · have hlexical := hwrites.lexical he
    rw [← List.append_nil names] at hlexical
    exact hlexical.unsetCode
  · exact List.forall_mem_append.mpr ⟨hwrites.refers hs,
      fun i hi => Instr.refers_of_isQuiet (isQuiet_unsetCode names i hi)⟩
  · exact (hwrites.holds hs pipe hpipe).mono (.append_left code (closed_unsetCode names)) (.refl _)

/-- A branch puts its bodies between code that binds and removes its variables. -/
theorem Writes.branch {kind : BranchKind} {assign : Bool} {vars : List Variable} {decl : List Nat}
    {pop : Option Nat} {taken : List Instr} {other : Option (List Instr)} {s₂ s₃ : State}
    (htaken : Writes c elements s₁ s₂ taken [] bindings pipes)
    (hother : Writes c elements s₂ s₃ (other.getD []) [] more pipes') (hgrows : Grows s₃ s')
    (hlength : decl.length = vars.length)
    (hnames : s₃.tables.Sound → decl.map (s'.tables.strings[·]?) = vars.map fun v => some v.name)
    (helements : elements → kind = .range → vars.length ≤ 2) :
    Writes c elements s₁ s' (branchCode kind assign decl pop taken other) []
      ((vars.map fun v => ⟨v, assign⟩) ++ bindings ++ more) (pipes ++ pipes') where
  extends_ := htaken.extends_.trans (hother.extends_.trans hgrows.extends_)
  sound hs := hgrows.sound (hother.sound (htaken.sound hs))
  declared := hgrows.declared.trans (hother.declared.trans htaken.declared)
  lexical he := by
    refine lexical_branchCode kind assign decl pop (fun hkind => ?_) (htaken.lexical he)
      (hother.lexical he)
    rw [hlength]
    exact helements he hkind
  refers hs := by
    have hs₂ := htaken.sound hs
    refine forall_branchCode (fun i hi => Instr.refers_of_isQuiet hi) (fun name hname => ?_)
      (fun i hi => ?_) (fun i hi => ?_)
    · obtain ⟨v, hv, hname⟩ : ∃ v ∈ vars, some v.name = s'.tables.strings[name]? := by
        rw [← List.mem_map, ← hnames (hother.sound hs₂)]
        exact List.mem_map_of_mem hname
      refine ⟨⟨v, assign⟩, ?_, hname.symm⟩
      exact List.mem_append_left _ (List.mem_append_left _ (List.mem_map_of_mem hv))
    · refine (htaken.refers hs i hi).mono (hother.extends_.trans hgrows.extends_) ?_
      exact List.subset_append_of_subset_left _ (List.subset_append_right _ _)
    · exact (hother.refers hs₂ i hi).mono hgrows.extends_ (List.subset_append_right _ _)
  closed := closed_branchCode kind assign decl pop htaken.closed hother.closed
  holds hs := by
    refine List.forall_mem_append.mpr ⟨fun pipe hpipe => ?_, fun pipe hpipe => ?_⟩
    · exact (htaken.holds hs pipe hpipe).mono
        (body_enclosed_branchCode kind assign decl pop hother.closed)
        (hother.extends_.trans hgrows.extends_)
    · exact (hother.holds (htaken.sound hs) pipe hpipe).mono
        (other_enclosed_branchCode kind assign decl pop htaken.closed) hgrows.extends_

/-- A branch is compiled in steps: its condition, its body, its alternative and its variables, one after
the other. -/
theorem yields_branchSteps {kind : BranchKind} {pipe : Pipeline} {body : Block Node}
    {orElse : Option (Block Node)} :
    Yields (node c f (.branch kind pos pipe body orElse)) s fun g s' =>
      ∃ B : BranchSteps c kind pipe body orElse s s', g.instrs = f.instrs ++ B.instrs := by
  refine .bind (yields_self _) fun condition s₁ hcondition => ?_
  have hstraight := (yields_condition_emitsBindings pipe condition s₁ hcondition).1.straight
  refine .bind (yields_self _) fun taken s₂ htaken => ?_
  refine .bind (yields_self _) fun other s₃ hother => ?_
  refine .bind (yields_self _) fun b s₃' hb => ?_
  obtain ⟨rfl, held, pop, htake, hheld, -⟩ := yields_balanced hstraight b s₃' hb
  rw [htake]
  refine .bind (yields_self _) fun decl s₄ hdecl => ?_
  simp only
  split
  · refine yields_pure ⟨⟨condition, taken, other, b, decl, s₁, s₂, s₃', hcondition, htaken, hother,
      balance_of_balanced hb, hdecl⟩, ?_⟩
    have hpop : b.takePop.2 = pop := congrArg Prod.snd htake
    rw [Fragment.instrs_mark, Fragment.instrs_append, instrs_layout, hheld, ← hpop]
    rfl
  · exact yields_fail

/-- A branch binds what its condition, its header and its bodies bind, and leaves the variables of its
condition behind. -/
theorem yields_branch {kind : BranchKind} {pipe : Pipeline} {body : Block Node}
    {orElse : Option (Block Node)}
    (helements : elements → kind = .range → pipe.decl.length ≤ 2)
    (hbody : ∀ s, Yields (nodes c .empty body.nodes) s (AddsWritten c elements bindings pipes .empty s))
    (hother : ∀ s, Yields (alternative c orElse) s fun e s' =>
      Writes c elements s s' ((e.map Fragment.instrs).getD []) [] more pipes') :
    Yields (node c f (.branch kind pos pipe body orElse)) s
      (AddsWritten c elements (pipe.bindings ++ bindings ++ more) (⟨false, pipe⟩ :: (pipes ++ pipes'))
        f s) := by
  intro g s₄ hrun
  obtain ⟨B, hcode⟩ := yields_branchSteps g s₄ hrun
  have hbody : Yields (inScope (return (← nodes c .empty body.nodes).mark body.pos)) B.afterCondition
      fun g s₂ => Writes c elements B.afterCondition s₂ g.instrs [] bindings pipes :=
    yields_inScope (.bind (hbody _) fun _ _ hadds => yields_pure hadds)
  obtain ⟨hgrows, hlength, hnames⟩ := (ensures_internAll pipe.decl).of_ok B.compiled_decl
  have hemits := yields_condition_emitsBindings pipe B.condition B.afterCondition B.compiled_condition
  have hheader : Writes c elements s B.afterCondition
      (Fragment.holdCode B.pop ++ B.condition.instrs ++ []) (declaredBy B.condition.instrs)
      pipe.innerBindings [⟨false, pipe⟩] :=
    (hemits.writes_pipeline B.compiled_condition).between (lexical_holdCode B.pop) lexical_nil
      (isQuiet_holdCode B.pop) fun _ hi => nomatch hi
  have hbranch : Writes c elements B.afterCondition s₄ (branchCode kind pipe.assign B.decl B.pop
      B.taken.instrs (B.other.map Fragment.instrs)) [] _ _ :=
    (hbody _ _ B.compiled_taken).branch (hother _ _ _ B.compiled_other) hgrows hlength hnames helements
  have hwhole := hheader.append hbranch
  have hbindings : pipe.innerBindings ++
      ((pipe.decl.map fun v => ⟨v, pipe.assign⟩) ++ bindings ++ more) =
        pipe.bindings ++ bindings ++ more := by
    obtain ⟨_, assign, decl, cmds⟩ := pipe
    simp [Pipeline.bindings, Pipeline.innerBindings, Pipeline.decl, Pipeline.commands, Pipeline.assign]
  rw [hbindings] at hwhole
  exact ⟨_, _, by rw [hcode, BranchSteps.instrs, List.append_nil], hwhole⟩

mutual

/-- The code of a node binds the variables of the node, and it is lexically scoped if its ranges have
no more than two variables. -/
theorem yields_node : ∀ (n : Node) (f : Fragment) (s : State),
    Yields (node c f n) s (AddsWritten c n.bindsElements n.bindings n.pipelines f s)
  | .list ⟨pos, ns⟩, f, s => .bind (yields_nodes ns f s) fun _ _ hadds => yields_pure hadds
  | .text pos str, f, s => .bind (yields_text str) fun _ _ hadds => yields_pure hadds
  | .action pos pipe, f, s => .bind (yields_action pipe) fun _ _ hadds => yields_pure hadds
  | .comment pos str, f, s => yields_pure (addsWritten_refl f s)
  | .branch kind pos pipe ⟨bodyPos, ns⟩ orElse, f, s => by
    have hparts (h : (Node.branch kind pos pipe ⟨bodyPos, ns⟩ orElse).bindsElements) :
        ((kind = .range → pipe.decl.length ≤ 2) ∧ Node.allBindElements ns) ∧
          Node.elseBindsElements orElse := by
      simp only [Node.bindsElements, Bool.and_eq_true, Bool.or_eq_true, bne_iff_ne,
        decide_eq_true_eq] at h
      exact ⟨⟨fun hkind => h.1.1.resolve_left fun hne => hne hkind, h.1.2⟩, h.2⟩
    refine yields_branch (fun h => (hparts h).1.1) (fun s => ?_) (fun s => ?_)
    · exact (yields_nodes ns .empty s).mono fun _ _ hadds => hadds.imp fun h => (hparts h).1.2
    · exact (yields_alternative orElse s).mono fun _ _ hwrites =>
        hwrites.mono (fun h => (hparts h).2) (List.Subset.refl _)
  | .template pos name pipe, f, s =>
    .bind (yields_templateCall name pipe) fun _ _ hadds => yields_pure hadds
  | .breakLoop pos, f, s | .continueLoop pos, f, s => yields_fail

/-- The code of nodes is written and holds their pipelines. -/
theorem yields_nodes : ∀ (ns : List Node) (f : Fragment) (s : State),
    Yields (nodes c f ns) s
      (AddsWritten c (Node.allBindElements ns) (Node.allBindings ns) (Node.allPipelines ns) f s)
  | [], f, s => yields_pure (addsWritten_refl f s)
  | n :: rest, f, s => by
    have hparts (h : Node.allBindElements (n :: rest)) : n.bindsElements ∧ Node.allBindElements rest := by
      simpa only [Node.allBindElements, Bool.and_eq_true] using h
    refine .bind (yields_node n f s) fun g s₁ hn => ?_
    exact (yields_nodes rest g s₁).mono fun g' s₂ hrest =>
      (hn.imp fun h => (hparts h).1).trans (hrest.imp fun h => (hparts h).2)

/-- The code of an alternative leaves no variable behind. -/
theorem yields_alternative : ∀ (orElse : Option (Block Node)) (s : State),
    Yields (alternative c orElse) s fun e s' => Writes c (Node.elseBindsElements orElse) s s'
      ((e.map Fragment.instrs).getD []) [] (Node.elseBindings orElse) (Node.elsePipelines orElse)
  | none, s => yields_pure (Grows.refl s).writes
  | some ⟨pos, ns⟩, s => by
    have hscope : Yields (inScope (return (← nodes c .empty ns).mark pos)) s fun g s' =>
        Writes c (Node.allBindElements ns) s s' g.instrs [] (Node.allBindings ns)
          (Node.allPipelines ns) :=
      yields_inScope (.bind (yields_nodes ns .empty _) fun _ _ hadds => yields_pure hadds)
    refine .bind hscope fun g s' hg => yields_pure ?_
    rw [instrs_other]
    exact hg

end

/-! ### The parts of a branch -/

namespace BranchSteps

variable {kind : BranchKind} {pipe : Pipeline} {body : Block Node} {orElse : Option (Block Node)}
  (B : BranchSteps c kind pipe body orElse s s')

/-- What is written for the condition. -/
theorem emits_condition : Emits s B.afterCondition B.condition.instrs :=
  (yields_condition_emitsBindings pipe _ _ B.compiled_condition).1

/-- The code in front of the bodies is closed. -/
theorem closed_header : Closed (Fragment.holdCode B.pop ++ B.condition.instrs) :=
  (Env.closed_holdCode B.pop).append B.emits_condition.straight.closed

/-- What is written for the body. -/
theorem writes_taken : Writes c (Node.allBindElements body.nodes) B.afterCondition B.afterTaken
    B.taken.instrs [] (Node.allBindings body.nodes) (Node.allPipelines body.nodes) := by
  have hscope : Yields (inScope (return (← nodes c .empty body.nodes).mark body.pos)) B.afterCondition
      fun g s₂ => Writes c (Node.allBindElements body.nodes) B.afterCondition s₂ g.instrs []
        (Node.allBindings body.nodes) (Node.allPipelines body.nodes) :=
    yields_inScope (.bind (yields_nodes body.nodes .empty _) fun _ _ hadds => yields_pure hadds)
  exact hscope _ _ B.compiled_taken

/-- What is written for the alternative. -/
theorem writes_other : Writes c (Node.elseBindsElements orElse) B.afterTaken B.afterOther
    B.otherInstrs [] (Node.elseBindings orElse) (Node.elsePipelines orElse) :=
  yields_alternative orElse _ _ _ B.compiled_other

/-- No jump leads out of the body. -/
theorem closed_taken : Closed B.taken.instrs := B.writes_taken.closed

/-- No jump leads out of the alternative. -/
theorem closed_other : Closed B.otherInstrs := B.writes_other.closed

/-- Interning the variables of a branch comes last. -/
theorem grows_decl : Grows B.afterOther s' := ((ensures_internAll pipe.decl).of_ok B.compiled_decl).1

/-- The indices of the variables of a branch are those of their names. -/
theorem names_decl (hs : s.tables.Sound) :
    B.decl.map (s'.tables.strings[·]?) = pipe.decl.map fun v => some v.name :=
  ((ensures_internAll pipe.decl).of_ok B.compiled_decl).2.2
    (B.writes_other.sound (B.writes_taken.sound (B.emits_condition.sound hs)))

/-- Tables only grow behind the body. -/
theorem extends_afterTaken : B.afterTaken.tables.Extends s'.tables :=
  B.writes_other.extends_.trans B.grows_decl.extends_

/-- Tables only grow behind the condition. -/
theorem extends_afterCondition : B.afterCondition.tables.Extends s'.tables :=
  B.writes_taken.extends_.trans B.extends_afterTaken

/-- The tables behind the body are sound if those in front of the branch are. -/
theorem sound_afterTaken (hs : s.tables.Sound) : B.afterTaken.tables.Sound :=
  B.writes_taken.sound (B.emits_condition.sound hs)

end BranchSteps

end Compile
end Stencil
