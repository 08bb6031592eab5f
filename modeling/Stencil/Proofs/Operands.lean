import Stencil.Proofs.Scoping
import Stencil.Proofs.Spans

/-!
# Pipelines inside pipelines

What is known about a pipeline in the parentheses of another one, and where the code of its commands is
run. A visit tells in which state the commands are compiled. They are compiled to code that is a piece of
that of the whole pipeline. If a pipeline around them has been folded, they have been run while it was
compiled.
-/

namespace Stencil

mutual

/-- The pipelines in the parentheses of an operand, at any depth. -/
def Operand.pipelines : Operand → List Pipeline
  | .chain _ inner _ => inner.pipelines
  | .paren p => p.pipelines
  | _ => []

/-- The pipelines in the parentheses of operands; the last operand is evaluated first. -/
def Operand.allPipelines : List Operand → List Pipeline
  | [] => []
  | a :: rest => Operand.allPipelines rest ++ a.pipelines

/-- The pipelines in the parentheses of a command. -/
def Command.pipelines : Command → List Pipeline
  | .mk _ operands => Operand.allPipelines operands

/-- The pipelines in the parentheses of commands. -/
def Command.allPipelines : List Command → List Pipeline
  | [] => []
  | cmd :: rest => cmd.pipelines ++ Command.allPipelines rest

/-- A pipeline and those in its parentheses. -/
def Pipeline.pipelines : Pipeline → List Pipeline
  | .mk pos assign decl commands => .mk pos assign decl commands :: Command.allPipelines commands

end

/-- A pipeline, and the state in which its commands are compiled. -/
structure Compile.PipelineVisit where
  pipe : Pipeline
  before : State

open Compile

mutual

/-- The visits of the pipelines in the parentheses of an operand. -/
def Operand.visits (c : Context) (s : State) : Operand → List PipelineVisit
  | .chain _ inner _ => inner.visits c s
  | .paren p => p.visits c s
  | _ => []

/-- The visits of the pipelines in the parentheses of operands, which are compiled from the last to the
first. -/
def Operand.allVisits (c : Context) (f : Fragment) (s : State) : List Operand → List PipelineVisit
  | [] => []
  | a :: rest =>
    Operand.allVisits c f s rest ++ listAfter (operands c 0 f rest) s fun _ s => a.visits c s

/-- The visits of the pipelines in the parentheses of a command. -/
def Command.visits (c : Context) (f : Fragment) (s : State) : Command → List PipelineVisit
  | .mk _ args => Operand.allVisits c f s args

/-- The visits of the pipelines in the parentheses of commands. -/
def Command.allVisits (c : Context) (chained : Bool) (f : Fragment) (s : State) :
    List Command → List PipelineVisit
  | [] => []
  | cmd :: rest =>
    cmd.visits c f s ++ listAfter (command c chained f cmd) s fun f s => Command.allVisits c true f s rest

/-- The visits of a pipeline and of those in its parentheses. -/
def Pipeline.visits (c : Context) (s : State) : Pipeline → List PipelineVisit
  | .mk pos assign decl cmds => ⟨.mk pos assign decl cmds, s⟩ :: Command.allVisits c false .empty s cmds

end

namespace Compile

variable {c : Context} {schema : Schema} {pos : Pos} {s s' s'' : State} {f f' f'' g body : Fragment}
  {t t' : Tables} {code whole whole' : List Instr} {pipe : Pipeline} {pipes more : List Pipeline}
  {V W : PipelineVisit} {all visits others : List PipelineVisit} {bindings : List Binding}
  {Q : Tables → List Instr → PipelineVisit → Prop}

/-- A pipeline is visited before those in its parentheses. -/
theorem visits_eq_cons (pipe : Pipeline) :
    pipe.visits c s = ⟨pipe, s⟩ :: Command.allVisits c false .empty s pipe.commands := by
  cases pipe
  rfl

/-! ### Pipelines in parentheses -/

/-- What is known about pipelines once they have been compiled to code, and stays so when other code is
added around it, when the tables grow and when the code of one of the pipelines `all` around them is
folded. -/
structure Lasting (c : Context) (all : List PipelineVisit) (Q : Tables → List Instr → PipelineVisit → Prop) :
    Prop where
  here : ∀ {V g s'}, V.before.tables.Sound → pipeline c true V.pipe V.before = .ok (g, s') →
    Q s'.tables g.instrs V
  mono : ∀ {t t' code whole V}, Q t code V → code <:+: whole → t.Extends t' → Q t' whole V
  folded : ∀ {W V body s g s'}, W ∈ all → V ∈ W.pipe.visits c W.before →
    commands c false .empty W.pipe.commands W.before = .ok (body, s) →
    fold c W.pipe.pos body s = .ok (g, s') →
    Folded c.schema s body g s' → Q s.tables body.instrs V → Q s'.tables g.instrs V

/-- Whether code has been added to a fragment from which something is known about pipelines, which have
been visited. -/
def AddsPipelines (Q : Tables → List Instr → PipelineVisit → Prop) (pipes : List Pipeline)
    (visits : List PipelineVisit) (f : Fragment) (s : State) (f' : Fragment) (s' : State) : Prop :=
  ∃ code, f'.instrs = f.instrs ++ code ∧ visits.map PipelineVisit.pipe = pipes ∧
    s.tables.Extends s'.tables ∧
    (s.tables.Sound → s'.tables.Sound ∧ ∀ V ∈ visits, Q s'.tables code V)

/-- Code without pipelines has none to be visited. -/
theorem AddsBindings.pipelines (h : AddsBindings bindings f s f' s') : AddsPipelines Q [] [] f s f' s' := by
  obtain ⟨code, hcode, hextends, hbinds⟩ := h
  exact ⟨code, hcode, rfl, hextends, fun hs => ⟨(hbinds hs).1, fun _ hV => nomatch hV⟩⟩

namespace Lasting

variable (hQ : Lasting c all Q)

include hQ

/-- Pipelines are visited one after the other. -/
theorem trans (h : AddsPipelines Q pipes visits f s f' s')
    (h' : AddsPipelines Q more others f' s' f'' s'') :
    AddsPipelines Q (pipes ++ more) (visits ++ others) f s f'' s'' := by
  obtain ⟨code, hcode, hvisits, hextends, hpipes⟩ := h
  obtain ⟨rest, hrest, hothers, hextends', hmore⟩ := h'
  refine ⟨code ++ rest, by rw [hrest, hcode, List.append_assoc], by rw [List.map_append, hvisits, hothers],
    hextends.trans hextends', fun hs => ?_⟩
  obtain ⟨hs', hpipes⟩ := hpipes hs
  obtain ⟨hs'', hmore⟩ := hmore hs'
  exact ⟨hs'', List.forall_mem_append.mpr
    ⟨fun V hV => hQ.mono (hpipes V hV) List.infix_append_left hextends',
      fun V hV => hQ.mono (hmore V hV) List.infix_append_right (.refl _)⟩⟩

/-- What does not contain pipelines may be added behind. -/
theorem behind (h : AddsPipelines Q pipes visits f s f' s') (h' : AddsBindings bindings f' s' f'' s'') :
    AddsPipelines Q pipes visits f s f'' s'' := by
  have hboth := hQ.trans h h'.pipelines
  rwa [List.append_nil, List.append_nil] at hboth

/-- The code of a pipeline in parentheses is added as a whole. -/
theorem append (h : AddsPipelines Q pipes visits .empty s g s')
    (hrun : pipeline c true pipe s = .ok (g, s')) (f : Fragment) :
    AddsPipelines Q (pipe :: pipes) (⟨pipe, s⟩ :: visits) f s (f.append g) s' := by
  obtain ⟨code, hcode, hvisits, hextends, hpipes⟩ := h
  obtain rfl : g.instrs = code := hcode
  refine ⟨g.instrs, Fragment.instrs_append f g, by rw [List.map_cons, hvisits], hextends, fun hs => ?_⟩
  obtain ⟨hs', hpipes⟩ := hpipes hs
  have hhere : Q s'.tables g.instrs ⟨pipe, s⟩ := hQ.here hs hrun
  exact ⟨hs', List.forall_mem_cons.mpr ⟨hhere, hpipes⟩⟩

/-- Folding keeps what is known about the pipelines in the parentheses of a pipeline. -/
theorem yields_fold (hW : W ∈ all)
    (hrun : commands c false .empty W.pipe.commands W.before = .ok (body, s'))
    (h : AddsPipelines Q pipes (Command.allVisits c false .empty W.before W.pipe.commands) .empty s body s') :
    Yields (fold c W.pipe.pos body) s'
      (AddsPipelines Q pipes (Command.allVisits c false .empty W.before W.pipe.commands) .empty s) := by
  intro g s'' hfold
  obtain ⟨code, hcode, hvisits, hextends, hpipes⟩ := h
  obtain rfl : body.instrs = code := hcode
  rcases (ensures_fold body).yields g s'' hfold with ⟨rfl, rfl⟩ | hfolded
  · exact ⟨g.instrs, rfl, hvisits, hextends, hpipes⟩
  · refine ⟨g.instrs, rfl, hvisits, hextends.trans hfolded.grows.extends_, fun hs => ?_⟩
    obtain ⟨hs', hpipes⟩ := hpipes hs
    refine ⟨hfolded.grows.sound hs', fun V hV => hQ.folded hW ?_ hrun hfold hfolded (hpipes V hV)⟩
    rw [visits_eq_cons]
    exact List.mem_cons_of_mem _ hV

end Lasting

mutual

/-- What lasts is known about the pipelines in the parentheses of an operand. -/
theorem yields_operand_pipelines (hQ : Lasting c all Q) (argc : Nat) :
    ∀ (a : Operand) (f : Fragment) (s : State), a.visits c s ⊆ all →
      Yields (operand c argc f a) s (AddsPipelines Q a.pipelines (a.visits c s) f s)
  | .chain pos inner path, f, s, hall =>
    .bind (yields_operand_pipelines hQ 0 inner f s hall) fun _ _ hinner =>
      .bind (yields_fields argc path) fun _ _ hfields => yields_pure (hQ.behind hinner hfields)
  | .paren p, f, s, hall => by
    refine .bind (Yields.and_self (yields_pipeline_pipelines hQ true p s hall)) fun g s₁ hpipe => ?_
    have hadds : AddsPipelines Q p.pipelines (p.visits c s) f s (f.append g) s₁ := by
      have hwhole := hQ.append hpipe.2 hpipe.1 f
      cases p
      exact hwhole
    split
    · next v _ =>
      refine .bind (ensures_intern v.name).yields fun name s₂ hname => yields_pure ?_
      exact hQ.behind hadds (hname.1.addsInstr (f.append g) (i := .var name) rfl)
    · exact yields_pure hadds
  | .bool pos b, f, s, _ => (yields_operand argc (.bool pos b) f s).mono fun _ _ h => h.pipelines
  | .number n, f, s, _ => (yields_operand argc (.number n) f s).mono fun _ _ h => h.pipelines
  | .string pos str, f, s, _ => (yields_operand argc (.string pos str) f s).mono fun _ _ h => h.pipelines
  | .nil pos, f, s, _ => (yields_operand argc (.nil pos) f s).mono fun _ _ h => h.pipelines
  | .dot pos, f, s, _ => (yields_operand argc (.dot pos) f s).mono fun _ _ h => h.pipelines
  | .field pos path, f, s, _ => (yields_operand argc (.field pos path) f s).mono fun _ _ h => h.pipelines
  | .var v, f, s, _ => (yields_operand argc (.var v) f s).mono fun _ _ h => h.pipelines
  | .ident pos name, f, s, _ => (yields_operand argc (.ident pos name) f s).mono fun _ _ h => h.pipelines

/-- What lasts is known about the pipelines in the parentheses of operands. -/
theorem yields_operands_pipelines (hQ : Lasting c all Q) (argc : Nat) :
    ∀ (args : List Operand) (f : Fragment) (s : State), Operand.allVisits c f s args ⊆ all →
      Yields (operands c argc f args) s
        (AddsPipelines Q (Operand.allPipelines args) (Operand.allVisits c f s args) f s)
  | [], f, s, _ => yields_pure (addsBindings_refl f s).pipelines
  | a :: rest, f, s, hall => by
    rw [Operand.allVisits, List.append_subset] at hall
    refine .bind (Yields.and_self (yields_operands_pipelines hQ 0 rest f s hall.1)) fun g s₁ hrest => ?_
    have ha := hall.2
    rw [listAfter_of_ok hrest.1] at ha
    rw [Operand.allVisits, listAfter_of_ok hrest.1]
    exact (yields_operand_pipelines hQ argc a g s₁ ha).mono fun _ _ ha => hQ.trans hrest.2 ha

/-- What lasts is known about the pipelines in the parentheses of a command. -/
theorem yields_command_pipelines (hQ : Lasting c all Q) (chained : Bool) :
    ∀ (cmd : Command) (f : Fragment) (s : State), cmd.visits c f s ⊆ all →
      Yields (command c chained f cmd) s (AddsPipelines Q cmd.pipelines (cmd.visits c f s) f s)
  | .mk _ args, f, s, hall => by
    unfold command
    simp only
    split
    · exact .bind (yields_operands_pipelines hQ _ args f s hall) fun _ _ hadds => yields_pure hadds
    · exact yields_fail

/-- What lasts is known about the pipelines in the parentheses of commands. -/
theorem yields_commands_pipelines (hQ : Lasting c all Q) (chained : Bool) :
    ∀ (cmds : List Command) (f : Fragment) (s : State), Command.allVisits c chained f s cmds ⊆ all →
      Yields (commands c chained f cmds) s
        (AddsPipelines Q (Command.allPipelines cmds) (Command.allVisits c chained f s cmds) f s)
  | [], f, s, _ => yields_pure (addsBindings_refl f s).pipelines
  | cmd :: rest, f, s, hall => by
    rw [Command.allVisits, List.append_subset] at hall
    refine .bind (Yields.and_self (yields_command_pipelines hQ chained cmd f s hall.1)) fun g s₁ hcmd => ?_
    have hrest := hall.2
    rw [listAfter_of_ok hcmd.1] at hrest
    rw [Command.allVisits, listAfter_of_ok hcmd.1]
    exact (yields_commands_pipelines hQ true rest g s₁ hrest).mono fun _ _ hrest => hQ.trans hcmd.2 hrest

/-- What lasts is known about the pipelines in the parentheses of a pipeline from the code of this one.
-/
theorem yields_pipeline_pipelines (hQ : Lasting c all Q) (binds : Bool) :
    ∀ (pipe : Pipeline) (s : State), pipe.visits c s ⊆ all →
      Yields (pipeline c binds pipe) s (AddsPipelines Q (Command.allPipelines pipe.commands)
        (Command.allVisits c false .empty s pipe.commands) .empty s)
  | .mk pos assign decl cmds, s, hall => by
    obtain ⟨hself, hinner⟩ := List.cons_subset.mp hall
    have hcmds := yields_commands_pipelines hQ false cmds .empty s hinner
    refine .bind (Yields.and_self hcmds) fun body s₁ hbody => ?_
    refine .bind (hQ.yields_fold hself hbody.1 hbody.2) fun g s₂ hfold => ?_
    cases binds with
    | true =>
      exact .bind (yields_bindAll assign decl) fun _ _ hbind => yields_pure (hQ.behind hfold hbind)
    | false => exact yields_pure hfold

end

/-- The visits of a pipeline are those of the pipeline and of all pipelines in its parentheses. -/
theorem map_visits {binds : Bool} (hrun : pipeline c binds pipe s = .ok (g, s')) :
    (pipe.visits c s).map PipelineVisit.pipe = pipe.pipelines := by
  have hQ : Lasting c (pipe.visits c s) fun _ _ _ => True := ⟨fun _ _ => trivial, fun _ _ _ => trivial,
    fun _ _ _ _ _ _ => trivial⟩
  obtain ⟨code, -, hvisits, -⟩ :=
    yields_pipeline_pipelines hQ binds pipe s (List.Subset.refl _) g s' hrun
  rw [visits_eq_cons, List.map_cons, hvisits]
  cases pipe
  rfl

/-! ### Where commands are run -/

/-- Whether a pipeline that has been visited has been folded, and its code had other code in it. -/
def FoldedAround (c : Context) (t : Tables) (W : PipelineVisit) (code : List Instr) : Prop :=
  ∃ body s g s', commands c false .empty W.pipe.commands W.before = .ok (body, s) ∧
    fold c W.pipe.pos body s = .ok (g, s') ∧ Folded c.schema s body g s' ∧ s'.tables.Extends t ∧
    code <:+: body.instrs

/-- Whether the commands of a pipeline that has been visited are run where other code is: as a piece of
it, or while it has been compiled, when one of the pipelines `all` around them has been folded. -/
def Locates (c : Context) (all : List PipelineVisit) (t : Tables) (whole : List Instr) (V : PipelineVisit) :
    Prop :=
  ∃ body s', commands c false .empty V.pipe.commands V.before = .ok (body, s') ∧ s'.tables.Extends t ∧
    (body.instrs <:+: whole ∨
      ∃ W ∈ all, V ∈ W.pipe.visits c W.before ∧ FoldedAround c t W body.instrs)

/-- The commands of a pipeline are run in all code that has the code of the pipeline in it. -/
theorem Locates.mono (h : Locates c all t whole V) (hwhole : whole <:+: whole') (hextends : t.Extends t') :
    Locates c all t' whole' V := by
  obtain ⟨body, s', hrun, ht, hpart | ⟨W, hW, hV, around, s₁, g, s₂, hcmds, hfold, hfolded, ht', hpart⟩⟩ :=
    h
  · exact ⟨body, s', hrun, ht.trans hextends, .inl (hpart.trans hwhole)⟩
  · exact ⟨body, s', hrun, ht.trans hextends,
      .inr ⟨W, hW, hV, around, s₁, g, s₂, hcmds, hfold, hfolded, ht'.trans hextends, hpart⟩⟩

/-- The commands of a pipeline that is folded are run then, and so are those in its parentheses. -/
theorem Locates.folded (hW : W ∈ all) (hV : V ∈ W.pipe.visits c W.before)
    (hrun : commands c false .empty W.pipe.commands W.before = .ok (body, s))
    (hfold : fold c W.pipe.pos body s = .ok (g, s')) (hfolded : Folded c.schema s body g s')
    (h : Locates c all s.tables body.instrs V) : Locates c all s'.tables g.instrs V := by
  have hextends := hfolded.grows.extends_
  obtain ⟨own, s₀, hown, ht, hpart | ⟨X, hX, hV', around, s₁, g', s₂, hcmds, hfold', hfolded', ht', hpart⟩⟩
    := h
  · exact ⟨own, s₀, hown, ht.trans hextends,
      .inr ⟨W, hW, hV, body, s, g, s', hrun, hfold, hfolded, .refl _, hpart⟩⟩
  · exact ⟨own, s₀, hown, ht.trans hextends,
      .inr ⟨X, hX, hV', around, s₁, g', s₂, hcmds, hfold', hfolded', ht'.trans hextends, hpart⟩⟩

/-- The commands of a pipeline are run where the code of the pipeline is. -/
theorem yields_locates (binds : Bool) (pipe : Pipeline) (s : State) (hall : ⟨pipe, s⟩ ∈ all) :
    Yields (pipeline c binds pipe) s fun g s' => Locates c all s'.tables g.instrs ⟨pipe, s⟩ := by
  obtain ⟨pos, assign, decl, cmds⟩ := pipe
  refine .bind (yields_self _) fun body s₁ hrun => ?_
  have hbody : Locates c all s₁.tables body.instrs ⟨.mk pos assign decl cmds, s⟩ :=
    ⟨body, s₁, hrun, .refl _, .inl List.infix_rfl⟩
  refine .bind (Yields.and_self (ensures_fold body).yields) fun g s₂ hfold => ?_
  have hg : Locates c all s₂.tables g.instrs ⟨.mk pos assign decl cmds, s⟩ := by
    rcases hfold.2 with ⟨rfl, rfl⟩ | hfolded
    · exact hbody
    · exact hbody.folded hall (List.mem_cons_self ..) hrun hfold.1 hfolded
  cases binds with
  | false => exact yields_pure hg
  | true =>
    refine .bind (yields_bindAll assign decl) fun f' s' hbind => yields_pure ?_
    obtain ⟨code, hcode, hextends, -⟩ := hbind
    exact hg.mono (hcode ▸ List.infix_append_left) hextends

/-- Where commands are run is known of the code of a pipeline, however other code is added. -/
theorem lasting_locates : Lasting c all fun t code V => V ∈ all → Locates c all t code V where
  here _ hrun hall := yields_locates true _ _ hall _ _ hrun
  mono h hwhole hextends hall := (h hall).mono hwhole hextends
  folded hW hV hrun hfold hfolded h hall := (h hall).folded hW hV hrun hfold hfolded

/-- The commands of a pipeline and of those in its parentheses are run where the code of the pipeline
is. -/
theorem locates_of_pipeline {binds : Bool} (hs : s.tables.Sound)
    (hrun : pipeline c binds pipe s = .ok (g, s')) (hV : V ∈ pipe.visits c s) :
    Locates c (pipe.visits c s) s'.tables g.instrs V := by
  have hself : (⟨pipe, s⟩ : PipelineVisit) ∈ pipe.visits c s := by
    rw [visits_eq_cons]
    exact List.mem_cons_self ..
  have hown := yields_locates binds pipe s hself g s' hrun
  obtain ⟨code, hcode, -, -, hinner⟩ :=
    yields_pipeline_pipelines lasting_locates binds pipe s (List.Subset.refl _) g s' hrun
  obtain rfl : g.instrs = code := hcode
  have hmem := hV
  rw [visits_eq_cons] at hmem
  rcases List.mem_cons.mp hmem with rfl | hmem
  · exact hown
  · exact (hinner hs).2 V hmem hV

end Compile
end Stencil
