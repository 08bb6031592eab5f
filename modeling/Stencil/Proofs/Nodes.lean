import Stencil.Proofs.Branching

/-!
# Compiled nodes

The code that is compiled for the nodes of a well-formed template is a sequence of statements. The
proof follows the nodes: those without bodies are statements by themselves, and the bodies of a branch
are statements by induction.
-/

namespace Stencil

namespace Compile

variable {c : Context} {pos : Pos} {s s' : State} {f f' : Fragment}

/-- The alternative of a branch is left out if its code is empty. -/
theorem instrs_other (g : Fragment) :
    ((if g.isEmpty then none else some g : Option Fragment).map Fragment.instrs).getD [] = g.instrs := by
  split
  · next hempty =>
    have hnil : g.instrs = [] := by simpa [Fragment.isEmpty, Fragment.instrs] using hempty
    exact hnil.symm
  · rfl

/-- Compiling a branch whose bodies are statements puts its parts together. -/
theorem ensures_branch {kind : BranchKind} {pipe : Pipeline} {body : Block Node}
    {orElse : Option (Block Node)} (hpipe : pipe.wellFormed kind.vars) (hs : s.tables.Sound)
    (hprint : s.noPrint = false)
    (hbody : ∀ s : State, s.tables.Sound → s.noPrint = false →
      Ensures (nodes c .empty body.nodes) s (AddsStatement c .empty s))
    (hother : ∀ s : State, s.tables.Sound → s.noPrint = false →
      Ensures (alternative c orElse) s fun e s' =>
        Statement c s s' ((e.map Fragment.instrs).getD []) []) :
    Ensures (node c f (.branch kind pos pipe body orElse)) s fun f' s' =>
      ∃ B : BranchSteps c kind pipe body orElse s s', B.Sound ∧ f'.instrs = f.instrs ++ B.instrs := by
  refine .bind (ensures_pipeline false kind.vars pipe s).eq fun condition s₁ hcondition => ?_
  obtain ⟨hcompiled, _, hcode, hemits, hfacts⟩ := hcondition
  obtain ⟨hprint₁, hleaves⟩ := hfacts ⟨hpipe, fun h => absurd h Bool.false_ne_true⟩ hprint
  obtain rfl : condition.instrs = _ := hcode
  have htaken : Ensures (inScope (return (← nodes c .empty body.nodes).mark body.pos)) s₁
      fun g s₂ => Statement c s₁ s₂ g.instrs [] :=
    ensures_inScope (.bind (hbody _ (hemits.sound hs) hprint₁) fun _ _ hadds => ensures_pure hadds)
  refine .bind htaken.eq fun taken s₂ htaken => ?_
  obtain ⟨hcompiled₂, htaken⟩ := htaken
  refine .bind (hother s₂ htaken.sound htaken.noPrint).eq fun other s₃ hother => ?_
  obtain ⟨hcompiled₃, hother⟩ := hother
  refine .bind (ensures_balanced hemits.straight hleaves).eq fun b s₃' hb => ?_
  obtain ⟨hcompiledb, rfl, held, pop, htake, hheld, -, hbalances⟩ := hb
  rw [htake]
  obtain rfl : b.takePop.1 = held := congrArg Prod.fst htake
  obtain rfl : b.takePop.2 = pop := congrArg Prod.snd htake
  refine .bind (ensures_internAll pipe.decl).eq fun decl s₄ hdecl => ?_
  obtain ⟨hcompiled₄, hgrows, hlength, hnames⟩ := hdecl
  simp only
  split
  · refine ensures_pure ⟨⟨condition, taken, other, b, decl, s₁, s₂, s₃', hcompiled, hcompiled₂,
      hcompiled₃, balance_of_balanced hcompiledb, hcompiled₄⟩, ⟨hemits, hprint₁, hleaves, hbalances, hheld, htaken, hother,
      hgrows, hlength, hnames hother.sound⟩, ?_⟩
    rw [Fragment.instrs_mark, Fragment.instrs_append, instrs_layout, hheld]
    rfl
  · exact ensures_fail fun _ => by simp

mutual

/-- A well-formed node is compiled to a statement. -/
theorem ensures_node : ∀ (n : Node) (f : Fragment) (s : State), n.wellFormed → s.tables.Sound →
    s.noPrint = false → Ensures (node c f n) s (AddsStatement c f s)
  | .list ⟨pos, ns⟩, f, s, hwf, hs, hprint =>
    .bind (ensures_nodes ns f s hwf hs hprint) fun _ _ hadds => ensures_pure hadds
  | .text pos str, f, s, _, hs, hprint =>
    .bind (ensures_text str hs hprint) fun _ _ hadds => ensures_pure hadds
  | .action pos pipe, f, s, hwf, hs, hprint =>
    .bind (ensures_action hwf hs hprint) fun _ _ hadds => ensures_pure hadds
  | .comment pos str, f, s, _, hs, hprint => ensures_pure (addsStatement_refl hs hprint)
  | .branch kind pos pipe ⟨bodyPos, bodyNodes⟩ orElse, f, s, hwf, hs, hprint => by
    simp only [Node.wellFormed, Bool.and_eq_true] at hwf
    obtain ⟨⟨hpipe, hbody⟩, hother⟩ := hwf
    refine (ensures_branch hpipe hs hprint
      (fun s hs hprint => ensures_nodes bodyNodes .empty s hbody hs hprint)
      (fun s hs hprint => ensures_alternative orElse s hother hs hprint)).mono fun f' s' hB => ?_
    obtain ⟨B, hB, hcode⟩ := hB
    exact ⟨_, _, hcode, hB.statement (decl_of_wellFormed hpipe) hs⟩
  | .template pos name pipe, f, s, hwf, hs, hprint => by
    refine .bind (ensures_templateCall ?_ hs hprint) fun _ _ hadds => ensures_pure hadds
    intro p hp
    subst hp
    exact hwf
  | .breakLoop pos, f, s, _, _, _ => ensures_fail fun _ => nofun
  | .continueLoop pos, f, s, _, _, _ => ensures_fail fun _ => nofun

/-- Well-formed nodes are compiled to a statement. -/
theorem ensures_nodes : ∀ (ns : List Node) (f : Fragment) (s : State), Node.allWellFormed ns →
    s.tables.Sound → s.noPrint = false → Ensures (nodes c f ns) s (AddsStatement c f s)
  | [], f, s, _, hs, hprint => ensures_pure (addsStatement_refl hs hprint)
  | n :: rest, f, s, hwf, hs, hprint => by
    simp only [Node.allWellFormed, Bool.and_eq_true] at hwf
    refine .bind (ensures_node n f s hwf.1 hs hprint) fun g s₁ hadds => ?_
    obtain ⟨code, names, hcode, hstatement⟩ := hadds
    apply (ensures_nodes rest g s₁ hwf.2 hstatement.sound hstatement.noPrint).mono
    intro g' s₂ hrest
    exact AddsStatement.trans ⟨code, names, hcode, hstatement⟩ hrest

/-- The alternative of a branch is compiled to a statement that keeps no variables. -/
theorem ensures_alternative : ∀ (orElse : Option (Block Node)) (s : State), Node.elseWellFormed orElse →
    s.tables.Sound → s.noPrint = false → Ensures (alternative c orElse) s fun e s' =>
      Statement c s s' ((e.map Fragment.instrs).getD []) []
  | none, s, _, hs, hprint => ensures_pure (statement_nil hs hprint)
  | some ⟨pos, ns⟩, s, hwf, hs, hprint => by
    have hscope : Ensures (inScope (return (← nodes c .empty ns).mark pos)) s
        fun g s' => Statement c s s' g.instrs [] :=
      ensures_inScope (.bind (ensures_nodes ns .empty _ hwf hs hprint) fun _ _ hadds =>
        ensures_pure hadds)
    refine .bind hscope fun g s' hg => ensures_pure ?_
    rw [instrs_other]
    exact hg

end

end Compile
end Stencil
