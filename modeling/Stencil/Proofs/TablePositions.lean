import Stencil.Proofs.Attribution

/-!
# Positions in the tables of templates

Where the positions in the table of a compiled template come from. Each step of compilation only adds
entries behind those that there are, and only with positions of the part of the tree that it compiles.
Folding, balancing and the layout of branches drop, move and renumber entries, but never make one up.
-/

namespace Stencil

mutual

/-- The positions in an operand. -/
def Operand.positions : Operand → List Pos
  | .bool pos _ | .string pos _ | .nil pos | .dot pos | .field pos _ | .ident pos _ => [pos]
  | .number n => [n.pos]
  | .chain pos inner _ => pos :: inner.positions
  | .var v => [v.pos]
  | .paren p => p.positions

/-- The positions in operands. -/
def Operand.allPositions : List Operand → List Pos
  | [] => []
  | a :: rest => a.positions ++ Operand.allPositions rest

/-- The positions in a command. -/
def Command.positions : Command → List Pos
  | .mk pos args => pos :: Operand.allPositions args

/-- The positions in commands. -/
def Command.allPositions : List Command → List Pos
  | [] => []
  | cmd :: rest => cmd.positions ++ Command.allPositions rest

/-- The positions in a pipeline. -/
def Pipeline.positions : Pipeline → List Pos
  | .mk pos _ decl cmds => pos :: decl.map Variable.pos ++ Command.allPositions cmds

end

mutual

/-- The positions in a node. -/
def Node.positions : Node → List Pos
  | .list ⟨pos, ns⟩ => pos :: Node.allPositions ns
  | .text pos _ | .comment pos _ | .breakLoop pos | .continueLoop pos => [pos]
  | .action pos pipe => pos :: pipe.positions
  | .branch _ pos pipe ⟨bodyPos, ns⟩ orElse =>
    pos :: pipe.positions ++ bodyPos :: Node.allPositions ns ++ Node.elsePositions orElse
  | .template pos _ pipe => pos :: (pipe.map Pipeline.positions).getD []

/-- The positions in nodes. -/
def Node.allPositions : List Node → List Pos
  | [] => []
  | n :: rest => n.positions ++ Node.allPositions rest

/-- The positions in the alternative of a branch. -/
def Node.elsePositions : Option (Block Node) → List Pos
  | none => []
  | some ⟨pos, ns⟩ => pos :: Node.allPositions ns

end

/-- The positions in a tree. -/
def Tree.positions (tree : Tree) : List Pos := tree.root.pos :: Node.allPositions tree.root.nodes

/-- The position of a pipeline is one of its positions. -/
theorem Pipeline.pos_mem_positions (p : Pipeline) : p.pos ∈ p.positions := by
  cases p
  exact List.mem_cons_self

/-- An operand without parts has a single position. -/
theorem Operand.positions_of_isLeaf {a : Operand} (h : a.isLeaf) : a.positions = [a.pos] := by
  cases a <;> first | rfl | cases h

namespace Fragment

variable {f f' f'' g : Fragment} {ps qs : List Pos} {pos : Pos}

/-- Whether code has been added behind a fragment, with entries of the given positions only. -/
def MarksFrom (ps : List Pos) (f f' : Fragment) : Prop :=
  ∃ g, f' = f.append g ∧ ∀ m ∈ g.marks, m.pos ∈ ps

/-- Adding nothing adds no entries. -/
theorem marksFrom_refl (ps : List Pos) (f : Fragment) : MarksFrom ps f f :=
  ⟨.empty, (append_empty f).symm, fun _ hm => by simp [empty] at hm⟩

/-- What is added in two steps has the positions of both. -/
theorem MarksFrom.trans (h : MarksFrom ps f f') (h' : MarksFrom ps f' f'') : MarksFrom ps f f'' := by
  obtain ⟨g, rfl, hg⟩ := h
  obtain ⟨g', rfl, hg'⟩ := h'
  refine ⟨g.append g', append_assoc f g g', fun m hm => ?_⟩
  rcases Array.mem_append.mp hm with hm | hm
  · exact hg m hm
  · obtain ⟨m', hm', rfl⟩ := Array.mem_map.mp hm
    exact hg' m' hm'

/-- Entries with some positions are entries with more of them. -/
theorem MarksFrom.mono (h : MarksFrom ps f f') (hps : ps ⊆ qs) : MarksFrom qs f f' := by
  obtain ⟨g, rfl, hg⟩ := h
  exact ⟨g, rfl, fun m hm => hps (hg m hm)⟩

/-- Code compiled on its own is added as a whole. -/
theorem MarksFrom.append (h : MarksFrom ps .empty g) (f : Fragment) : MarksFrom ps f (f.append g) := by
  obtain ⟨g', rfl, hg⟩ := h
  exact ⟨g', by rw [empty_append], hg⟩

/-- Code without marks has no entries. -/
theorem marksFrom_ofCode (ps : List Pos) (code : Array Instr) : MarksFrom ps .empty (ofCode code) :=
  ⟨ofCode code, (empty_append _).symm, fun _ hm => by simp [ofCode] at hm⟩

/-- Code without marks behind a fragment adds no entries. -/
theorem MarksFrom.code (h : MarksFrom ps f f') (code : Array Instr) :
    MarksFrom ps f (f'.append (ofCode code)) :=
  h.trans ((marksFrom_ofCode ps code).append f')

/-- An instruction behind a fragment adds no entry. -/
theorem MarksFrom.push (h : MarksFrom ps f f') (i : Instr) : MarksFrom ps f (f'.push i) := by
  rw [push_eq_append]
  exact h.code #[i]

/-- A mark adds an entry with its position. -/
theorem MarksFrom.mark (h : MarksFrom ps f f') (hpos : pos ∈ ps) : MarksFrom ps f (f'.mark pos) := by
  rw [mark_eq_append]
  refine h.trans ⟨_, rfl, fun m hm => ?_⟩
  rw [Array.mem_singleton.mp hm]
  exact hpos

/-- Code that is only added adds no entries. -/
theorem AppendsCode.marksFrom (h : AppendsCode f f') (ps : List Pos) : MarksFrom ps f f' := by
  obtain ⟨code, rfl, -⟩ := h
  exact (marksFrom_refl ps f).code code

end Fragment

namespace Compile

open Fragment (AppendsCode MarksFrom)

variable {c : Context} {pos : Pos} {s s' : State} {f f' g : Fragment} {ps : List Pos}

/-! ### Pipelines -/

/-- The entries of an operand without parts have its position. -/
theorem marksFrom_leaf {a : Operand} (hleaf : a.isLeaf) (argc : Nat) (f : Fragment) (s : State) :
    Yields (operand c argc f a) s fun f' _ => MarksFrom a.positions f f' :=
  (yields_leaf hleaf argc f s).mono fun _ _ hadds => by
    obtain ⟨g, hg, rfl⟩ := hadds
    rw [Operand.positions_of_isLeaf hleaf]
    exact (hg.marksFrom _).mark (List.mem_singleton_self _)

mutual

/-- The entries of an operand have positions of it. -/
theorem yields_marksFrom_operand : ∀ (a : Operand) (argc : Nat) (f : Fragment) (s : State),
    Yields (operand c argc f a) s fun f' _ => MarksFrom a.positions f f'
  | .bool .., argc, f, s | .number _, argc, f, s | .string .., argc, f, s | .nil _, argc, f, s
  | .dot _, argc, f, s | .field .., argc, f, s | .var _, argc, f, s | .ident .., argc, f, s =>
    marksFrom_leaf rfl argc f s
  | .chain pos inner path, argc, f, s => by
    refine .bind (yields_marksFrom_operand inner 0 f s) fun g s₁ hg => ?_
    refine .bind (yields_appendsCode_fields argc path) fun f' s₂ hf' => yields_pure ?_
    exact ((hg.mono (List.subset_cons_self pos _)).trans (hf'.marksFrom _)).mark List.mem_cons_self
  | .paren p, argc, f, s => by
    refine .bind (yields_marksFrom_pipeline true p s) fun g s₁ hg => ?_
    simp only
    split
    · exact .bind (yields_self _) fun name s₂ _ =>
        yields_pure (((hg.append f).push _).mark p.pos_mem_positions)
    · exact yields_pure ((hg.append f).mark p.pos_mem_positions)

/-- The entries of operands have positions of them. -/
theorem yields_marksFrom_operands : ∀ (args : List Operand) (argc : Nat) (f : Fragment) (s : State),
    Yields (operands c argc f args) s fun f' _ => MarksFrom (Operand.allPositions args) f f'
  | [], _, f, _ => yields_pure (Fragment.marksFrom_refl _ f)
  | a :: rest, argc, f, s =>
    .bind (yields_marksFrom_operands rest 0 f s) fun g s₁ hg =>
      (yields_marksFrom_operand a argc g s₁).mono fun _ _ ha =>
        (hg.mono (List.subset_append_right _ _)).trans (ha.mono (List.subset_append_left _ _))

/-- The entries of a command have positions of it. -/
theorem yields_marksFrom_command : ∀ (cmd : Command) (chained : Bool) (f : Fragment) (s : State),
    Yields (command c chained f cmd) s fun f' _ => MarksFrom cmd.positions f f'
  | .mk pos args, chained, f, s => by
    unfold command
    simp only
    split
    · exact .bind (yields_marksFrom_operands args _ f s) fun g s₁ hg =>
        yields_pure ((hg.mono (List.subset_cons_self pos _)).mark List.mem_cons_self)
    · exact yields_fail

/-- The entries of a chain of commands have positions of it. -/
theorem yields_marksFrom_commands : ∀ (cmds : List Command) (chained : Bool) (f : Fragment) (s : State),
    Yields (commands c chained f cmds) s fun f' _ => MarksFrom (Command.allPositions cmds) f f'
  | [], _, f, _ => yields_pure (Fragment.marksFrom_refl _ f)
  | cmd :: rest, chained, f, s =>
    .bind (yields_marksFrom_command cmd chained f s) fun g s₁ hg =>
      (yields_marksFrom_commands rest true g s₁).mono fun _ _ hrest =>
        (hg.mono (List.subset_append_left _ _)).trans (hrest.mono (List.subset_append_right _ _))

/-- The entries of a pipeline have positions of it. -/
theorem yields_marksFrom_pipeline (binds : Bool) : ∀ (p : Pipeline) (s : State),
    Yields (pipeline c binds p) s fun g _ => MarksFrom p.positions .empty g
  | .mk pos assign decl cmds, s => by
    refine .bind (yields_marksFrom_commands cmds false .empty s) fun body s₁ hbody => ?_
    refine .bind (yields_appendsCode_fold body) fun g s₂ hg => ?_
    have hfolded : MarksFrom (Pipeline.positions (.mk pos assign decl cmds)) .empty g := by
      rcases hg with rfl | hg
      · exact hbody.mono (List.subset_append_right _ _)
      · exact hg.marksFrom _
    cases binds
    · exact yields_pure (hfolded.mark List.mem_cons_self)
    · exact .bind (yields_appendsCode_bindAll assign decl) fun g' s₃ hg' =>
        yields_pure ((hfolded.trans (hg'.marksFrom _)).mark List.mem_cons_self)

end

/-! ### Statements -/

/-- Balancing code adds no entry. -/
theorem yields_marksFrom_balanced (hstraight : Straight g.instrs) (hg : MarksFrom ps .empty g) :
    Yields (balanced c pos g) s fun b _ =>
      MarksFrom ps .empty b.takePop.1 ∧ b = b.takePop.1.addPop b.takePop.2 := by
  unfold balanced
  split
  · next b hb =>
    obtain ⟨front, hheld, hpop⟩ := held_eq hstraight hb
    refine yields_pure ⟨?_, hpop⟩
    rw [hheld]
    exact (Fragment.marksFrom_ofCode ps front).trans (hg.append _)
  · exact yields_fail

/-- Text adds no entries. -/
theorem yields_marksFrom_text (str : String) (ps : List Pos) :
    Yields (text c pos f str) s fun f' _ => MarksFrom ps f f' := by
  unfold text
  simp only
  split
  · exact yields_pure (Fragment.marksFrom_refl ps f)
  · exact (yields_appendsCode_pushBytes _).mono fun _ _ hg => hg.marksFrom ps

/-- The entries of an action have positions of its pipeline. -/
theorem yields_marksFrom_action (pipe : Pipeline) :
    Yields (action c pos f pipe) s fun f' _ => MarksFrom pipe.positions f f' := by
  refine .bind (yields_marksFrom_pipeline true pipe s).and_self fun g s₁ hg =>
    yields_get_bind (yields_set_bind ?_)
  have hstraight := (yields_emitsBindings pipe g s₁ hg.1).1.straight
  obtain ⟨hprinted, hstraight⟩ : MarksFrom pipe.positions .empty
        (if pipe.decl.isEmpty && !s₁.noPrint then g.push .print else g) ∧
      Straight (if pipe.decl.isEmpty && !s₁.noPrint then g.push .print else g).instrs := by
    split
    · refine ⟨hg.2.push _, ?_⟩
      rw [Fragment.instrs_push]
      exact hstraight.append (straight_singleton rfl)
    · exact ⟨hg.2, hstraight⟩
  split
  · split
    · exact yields_pure (Fragment.marksFrom_refl _ f)
    · exact (yields_appendsCode_pushBytes _).mono fun _ _ hbytes => hbytes.marksFrom _
  · refine .bind (yields_marksFrom_balanced hstraight hprinted) fun b s₂ hb => yields_pure ?_
    obtain ⟨hheld, hpop⟩ := hb
    rw [hpop, Fragment.addPop_eq_append]
    exact (hheld.code _).append f

/-- A template call adds the entries of its pipeline. -/
theorem yields_marksFrom_templateBehind {g : Fragment} {s₁ : State} (name : String)
    (hstraight : Straight g.instrs) (hg : MarksFrom ps .empty g) :
    Yields (templateBehind c pos f name g) s₁ fun f' _ => MarksFrom ps f f' := by
  refine .bind (yields_marksFrom_balanced hstraight hg) fun b s₂ hb => ?_
  refine .bind (yields_self _) fun ns s₃ _ => .bind (yields_self _) fun index s₄ _ => yields_pure ?_
  rw [Fragment.addPop_eq_append]
  exact ((hb.1.append f).push _).code _

/-- The entries of a template call have positions of its pipeline. -/
theorem yields_marksFrom_templateCall (name : String) (pipe : Option Pipeline) :
    Yields (templateCall c pos f name pipe) s fun f' _ =>
      MarksFrom ((pipe.map Pipeline.positions).getD []) f f' := by
  refine .templateCall fun _ => ?_
  cases pipe with
  | some pipe =>
    exact (yields_marksFrom_pipeline true pipe s).and_self.mono fun g s₁ hg =>
      yields_marksFrom_templateBehind name (yields_emitsBindings pipe g s₁ hg.1).1.straight hg.2
  | none =>
    exact (yields_appendsCode_pushValue .nil).mono fun g s₁ hg =>
      yields_marksFrom_templateBehind name hg.straight (hg.marksFrom _)

/-! ### Branches -/

/-- A scope of its own has the entries of its nodes. -/
theorem yields_marksFrom_inScope {x : M Fragment}
    (h : Yields x { s with declared := [] } fun g _ => MarksFrom ps .empty g) :
    Yields (inScope x) s fun g _ => MarksFrom ps .empty g := by
  refine yields_get_bind (yields_modify_bind (.bind h fun g s₁ hg => ?_))
  refine yields_get_bind (yields_modify_bind (yields_pure ?_))
  rw [unsetAll_eq_append]
  exact hg.code _

/-- The layout of a branch has the entries of its parts. -/
theorem marksFrom_layout (kind : BranchKind) (assign : Bool) (decl : List Nat) (parts : BranchParts)
    {held : Fragment} (hcondition : MarksFrom ps .empty held) (hbody : MarksFrom ps .empty parts.body)
    (hother : MarksFrom ps .empty (parts.orElse.getD .empty)) :
    MarksFrom ps .empty (layout kind held assign decl parts) := by
  obtain ⟨before, between, rest, hlayout, -, -⟩ := layout_eq kind held assign decl parts
  rw [hlayout]
  have htaken := (hcondition.code before).trans (hbody.append _)
  exact ((htaken.code between).trans (hother.append _)).code rest

mutual

/-- The entries of a node have positions of it. -/
theorem yields_marksFrom_node : ∀ (n : Node) (f : Fragment) (s : State),
    Yields (node c f n) s fun f' _ => MarksFrom n.positions f f'
  | .list ⟨pos, ns⟩, f, s => .bind (yields_marksFrom_nodes ns f s) fun _ _ hg =>
    yields_pure ((hg.mono (List.subset_cons_self pos _)).mark List.mem_cons_self)
  | .text pos str, f, s => .bind (yields_marksFrom_text str _) fun _ _ hg =>
    yields_pure (hg.mark List.mem_cons_self)
  | .action pos pipe, f, s => .bind (yields_marksFrom_action pipe) fun _ _ hg =>
    yields_pure ((hg.mono (List.subset_cons_self pos _)).mark List.mem_cons_self)
  | .comment pos str, f, s =>
    yields_pure ((Fragment.marksFrom_refl _ f).mark List.mem_cons_self)
  | .branch kind pos pipe ⟨bodyPos, ns⟩ orElse, f, s => by
    have hmem (q : Pos) : q ∈ Node.positions (.branch kind pos pipe ⟨bodyPos, ns⟩ orElse) ↔
        q = pos ∨ q ∈ pipe.positions ∨ q ∈ bodyPos :: Node.allPositions ns ∨
          q ∈ Node.elsePositions orElse := by
      simp [Node.positions, or_assoc]
    refine .bind (yields_marksFrom_pipeline false pipe s).and_self fun condition s₁ hcondition => ?_
    have hstraight := (yields_condition_emitsBindings pipe condition s₁ hcondition.1).1.straight
    refine .bind (yields_marksFrom_inScope (.bind (yields_marksFrom_nodes ns .empty _) fun _ _ hg =>
      yields_pure ((hg.mono (List.subset_cons_self bodyPos _)).mark List.mem_cons_self)))
      fun taken s₂ htaken => ?_
    refine .bind (yields_marksFrom_alternative orElse s₂) fun other s₃ helse => ?_
    refine .bind (yields_marksFrom_balanced hstraight hcondition.2) fun b s₄ hb => ?_
    obtain ⟨held, pop, htake⟩ : ∃ held pop, b.takePop = (held, pop) := ⟨_, _, rfl⟩
    have hheld := hb.1
    rw [htake] at hheld ⊢
    refine .bind (yields_self _) fun decl s₅ _ => ?_
    simp only
    split
    · have hheld := hheld.mono fun q hq => (hmem q).mpr (.inr (.inl hq))
      have hbody := htaken.mono fun q hq => (hmem q).mpr (.inr (.inr (.inl hq)))
      have hother := helse.mono fun q hq => (hmem q).mpr (.inr (.inr (.inr hq)))
      have hwhole := marksFrom_layout kind pipe.assign decl ⟨taken, other, pop⟩ hheld hbody hother
      exact yields_pure ((hwhole.append f).mark ((hmem pos).mpr (.inl rfl)))
    · exact yields_fail
  | .template pos name pipe, f, s => .bind (yields_marksFrom_templateCall name pipe) fun _ _ hg =>
    yields_pure ((hg.mono (List.subset_cons_self pos _)).mark List.mem_cons_self)
  | .breakLoop pos, f, s | .continueLoop pos, f, s => yields_fail

/-- The entries of nodes have positions of them. -/
theorem yields_marksFrom_nodes : ∀ (ns : List Node) (f : Fragment) (s : State),
    Yields (nodes c f ns) s fun f' _ => MarksFrom (Node.allPositions ns) f f'
  | [], f, _ => yields_pure (Fragment.marksFrom_refl _ f)
  | n :: rest, f, s =>
    .bind (yields_marksFrom_node n f s) fun g s₁ hg =>
      (yields_marksFrom_nodes rest g s₁).mono fun _ _ hrest =>
        (hg.mono (List.subset_append_left _ _)).trans (hrest.mono (List.subset_append_right _ _))

/-- The entries of an alternative have positions of it. -/
theorem yields_marksFrom_alternative : ∀ (orElse : Option (Block Node)) (s : State),
    Yields (alternative c orElse) s fun e _ =>
      MarksFrom (Node.elsePositions orElse) .empty (e.getD .empty)
  | none, s => yields_pure (Fragment.marksFrom_refl _ .empty)
  | some ⟨pos, ns⟩, s => by
    refine .bind (yields_marksFrom_inScope (.bind (yields_marksFrom_nodes ns .empty _) fun _ _ hg =>
      yields_pure ((hg.mono (List.subset_cons_self pos _)).mark List.mem_cons_self)))
      fun g s₁ hg => yields_pure ?_
    split
    · exact Fragment.marksFrom_refl _ .empty
    · exact hg

end

/-- The entries in the table of a template are in order, the last one is behind all instructions, and
their positions are those of the tree. -/
theorem WrittenFrom.marks {tree : Tree} {t : Tables} {u : CompiledTemplate}
    (h : WrittenFrom c tree t u) :
    u.marks.toList.Pairwise (·.pc ≤ ·.pc) ∧ (∀ pc < u.code.size, ∃ m ∈ u.marks, pc ≤ m.pc) ∧
      ∀ m ∈ u.marks, m.pos ∈ tree.positions := by
  obtain ⟨v, φ, ⟨s, f, s', hnodes, -, -, -, rfl⟩, -, rfl⟩ := h
  have htidy : f.Tidy :=
    (yields_attributed_nodes tree.root.nodes .empty s f s' hnodes).tidy (Fragment.tidy_ofCode #[])
  refine ⟨?_, fun pc hpc => ?_, ?_⟩
  · have hwhole := htidy.append (Fragment.tidy_mark tree.root.pos)
    rw [← Fragment.mark_eq_append] at hwhole
    exact hwhole.sorted
  · rw [Array.size_map] at hpc
    exact ⟨⟨f.code.size, tree.root.pos⟩, Array.mem_push_self, Nat.le_of_lt hpc⟩
  · have hnodes := yields_marksFrom_nodes tree.root.nodes .empty s f s' hnodes
    obtain ⟨g, hg, hmarks⟩ : MarksFrom tree.positions .empty (f.mark tree.root.pos) :=
      (hnodes.mono (List.subset_cons_self _ _)).mark List.mem_cons_self
    rw [Fragment.empty_append] at hg
    exact hg ▸ hmarks

end Compile
end Stencil
