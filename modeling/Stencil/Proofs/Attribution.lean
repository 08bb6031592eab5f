import Stencil.Proofs.Spans
import Stencil.Proofs.Templates

/-!
# Attribution of operands

The table of a compiled template and the operands of its tree. All instructions of an operand stand in
front of an entry with the position of the operand, and only the first of them may be at the offset of
an entry: one that ends right in front of the operand. So every other instruction is looked up as one of
its operand. The first one is too, unless an entry ends there, since the look-up takes the first entry at
the offset or behind it, where an entry says how far the code of its node goes.
-/

namespace Stencil

/-- Whether an operand is not put together from others. -/
def Operand.isLeaf : Operand → Bool
  | .chain .. | .paren _ => false
  | _ => true

namespace Fragment

variable {f f' f'' g : Fragment} {spans more : List Span} {pos : Pos} {i : Instr}

/-- Whether code has been added behind a fragment, in which the instructions of the given spans are
located. -/
structure Attributed (spans : List Span) (f f' : Fragment) : Prop where
  extends_ : ∃ g, f' = f.append g ∧ g.Tidy
  attributes : f.Tidy → ∀ a ∈ spans, f'.Attributes a

/-- Whether straight-line code has been added behind a fragment, and nothing to its table. -/
def AppendsCode (f f' : Fragment) : Prop :=
  ∃ code : Array Instr, f' = f.append (ofCode code) ∧ Straight code.toList

/-- A tidy fragment is tidy with what has been added. -/
theorem Attributed.tidy (h : Attributed spans f f') (hf : f.Tidy) : f'.Tidy := by
  obtain ⟨g, rfl, hg⟩ := h.extends_
  exact hf.append hg

/-- Nothing that is added attributes nothing. -/
theorem attributed_refl (f : Fragment) : Attributed [] f f where
  extends_ := ⟨.empty, by simp, tidy_ofCode #[]⟩
  attributes _ _ ha := nomatch ha

/-- What two steps attribute is attributed by both together. -/
theorem Attributed.trans (h : Attributed spans f f') (h' : Attributed more f' f'') :
    Attributed (spans ++ more) f f'' where
  extends_ := by
    obtain ⟨g, rfl, hg⟩ := h.extends_
    obtain ⟨g', rfl, hg'⟩ := h'.extends_
    exact ⟨g.append g', append_assoc f g g', hg.append hg'⟩
  attributes hf := by
    refine List.forall_mem_append.mpr ⟨fun a ha => ?_, h'.attributes (h.tidy hf)⟩
    obtain ⟨g', rfl, -⟩ := h'.extends_
    exact (h.attributes hf a ha).append g'

/-- Code behind what has been attributed changes nothing. -/
theorem Attributed.add (h : Attributed spans f f') (hg : g.Tidy) : Attributed spans f (f'.append g) := by
  have hadds : Attributed [] f' (f'.append g) := ⟨⟨g, rfl, hg⟩, fun _ _ ha => nomatch ha⟩
  simpa using h.trans hadds

/-- A mark behind what has been attributed changes nothing. -/
theorem Attributed.mark (h : Attributed spans f f') (pos : Pos) : Attributed spans f (f'.mark pos) := by
  rw [mark_eq_append]
  exact h.add (tidy_mark pos)

/-- An instruction behind what has been attributed changes nothing. -/
theorem Attributed.push (h : Attributed spans f f') (i : Instr) : Attributed spans f (f'.push i) := by
  rw [push_eq_append]
  exact h.add (tidy_ofCode #[i])

/-- Code compiled on its own is added as a whole. -/
theorem Attributed.append (h : Attributed spans .empty g) (f : Fragment) :
    Attributed (spans.map (Span.shift f.size)) f (f.append g) where
  extends_ := by
    obtain ⟨g', rfl, hg⟩ := h.extends_
    exact ⟨g', by rw [empty_append], hg⟩
  attributes hf a' ha' := by
    obtain ⟨a, ha, rfl⟩ := List.mem_map.mp ha'
    exact (h.attributes (tidy_ofCode #[]) a ha).behind hf

/-- There is nothing to be located in a fragment without instructions. -/
theorem Attributed.of_isEmpty (h : Attributed spans .empty g) (hempty : g.isEmpty) :
    Attributed spans .empty .empty where
  extends_ := (attributed_refl .empty).extends_
  attributes hf a ha pc hstart hstop := by
    have hlt := (h.attributes hf a ha pc hstart hstop).lt_size
    have hsize : g.size = 0 := by simpa [isEmpty, size] using hempty
    omega

/-- A fragment is itself with no code added. -/
theorem AppendsCode.refl (f : Fragment) : AppendsCode f f := ⟨#[], by simp [Fragment.append, ofCode], straight_nil⟩

/-- A straight-line instruction only adds code. -/
theorem AppendsCode.push (h : AppendsCode f f') (hi : i.isStraight) : AppendsCode f (f'.push i) := by
  obtain ⟨code, rfl, hcode⟩ := h
  refine ⟨code ++ #[i], ?_, ?_⟩
  · rw [push_eq_append, append_assoc, ofCode_append]
  · rw [Array.toList_append]
    exact hcode.append (straight_singleton hi)

/-- Code that is added in two steps is added. -/
theorem AppendsCode.trans (h : AppendsCode f f') (h' : AppendsCode f' f'') : AppendsCode f f'' := by
  obtain ⟨code, rfl, hcode⟩ := h
  obtain ⟨rest, rfl, hrest⟩ := h'
  refine ⟨code ++ rest, by rw [append_assoc, ofCode_append], ?_⟩
  rw [Array.toList_append]
  exact hcode.append hrest

/-- Code that is only added attributes nothing. -/
theorem AppendsCode.attributed (h : AppendsCode f f') : Attributed [] f f' := by
  obtain ⟨code, rfl, -⟩ := h
  exact (attributed_refl f).add (tidy_ofCode code)

/-- Code that is added to nothing is straight-line code. -/
theorem AppendsCode.straight (h : AppendsCode .empty g) : Straight g.instrs := by
  obtain ⟨code, rfl, hcode⟩ := h
  rw [empty_append]
  exact hcode

/-- What an operand adds itself belongs to it. -/
theorem AppendsCode.own (h : AppendsCode f f') (pos : Pos) :
    Attributed [⟨f.size, f'.size, pos⟩] f (f'.mark pos) where
  extends_ := (h.attributed.mark pos).extends_
  attributes hf := by
    obtain ⟨code, rfl, hcode⟩ := h
    exact List.forall_mem_singleton.mpr (attributes_mark hf hcode pos)

end Fragment

namespace Compile

open Fragment (Attributed AppendsCode)

variable {c : Context} {pos : Pos} {s s' : State} {f f' g : Fragment} {spans more : List Span}

/-! ### Steps that only add code -/

/-- Pushing a value only adds code. -/
theorem yields_appendsCode_pushValue (v : Value) :
    Yields (pushValue c pos f v) s fun f' _ => AppendsCode f f' :=
  (ensures_pushValue f v).yields.mono fun _ _ hg => by
    obtain ⟨index, rfl, -⟩ := hg
    exact (AppendsCode.refl f).push rfl

/-- Writing bytes only adds code. -/
theorem yields_appendsCode_pushBytes (bytes : ByteArray) :
    Yields (pushBytes c pos f bytes) s fun f' _ => AppendsCode f f' :=
  (ensures_pushBytes f bytes).yields.mono fun _ _ hg => by
    obtain ⟨index, rfl, -⟩ := hg
    exact (AppendsCode.refl f).push rfl

/-- Pushing values only adds code. -/
theorem yields_appendsCode_pushValues (values : List Value) :
    Yields (pushValues c pos f values) s fun f' _ => AppendsCode f f' := by
  induction values generalizing f s with
  | nil => exact yields_pure (.refl f)
  | cons v rest ih =>
    exact .bind (yields_appendsCode_pushValue v) fun g s₁ hg => ih.mono fun _ _ hrest => hg.trans hrest

/-- Looking up a path only adds code. -/
theorem yields_appendsCode_fields (argc : Nat) (path : List String) :
    Yields (fields c pos argc f path) s fun f' _ => AppendsCode f f' := by
  induction path generalizing f s with
  | nil => exact yields_pure (.refl f)
  | cons name rest ih =>
    exact .bind (yields_self _) fun index s₁ _ => ih.mono fun _ _ hrest =>
      ((AppendsCode.refl f).push rfl).trans hrest

/-- Binding variables only adds code. -/
theorem yields_appendsCode_bindAll (assign : Bool) (decl : List Variable) :
    Yields (bindAll c assign f decl) s fun f' _ => AppendsCode f f' := by
  induction decl generalizing f s with
  | nil => exact yields_pure (.refl f)
  | cons v rest ih =>
    refine .bind (yields_self _) fun name s₁ _ => ?_
    have hrest (s : State) : Yields (bindAll c assign (f.push (.setVar name assign)) rest) s
        fun f' _ => AppendsCode f f' :=
      ih.mono fun _ _ hrest => ((AppendsCode.refl f).push rfl).trans hrest
    cases assign
    · exact yields_modify_bind (hrest _)
    · exact hrest _

/-- A call only adds code, and so does an asset hook. -/
theorem yields_appendsCode_identifier (argc : Nat) (name : String) :
    Yields (identifier c pos argc f name) s fun f' _ => AppendsCode f f' := by
  unfold identifier
  split
  · next bytes _ =>
    split
    · exact .bind (yields_pure (AppendsCode.refl f)) fun g s₁ hg => yields_modify_bind (yields_pure hg)
    · exact .bind (yields_appendsCode_pushBytes bytes) fun g s₁ hg =>
        yields_modify_bind (yields_pure hg)
  · refine yields_get_bind ?_
    split
    · exact yields_pure (.refl f)
    · split
      · exact yields_fail
      · exact .bind (yields_self _) fun index s₁ _ => yields_pure ((AppendsCode.refl f).push rfl)

/-- Folding keeps a fragment or puts code without a table in its place. -/
theorem yields_appendsCode_fold (body : Fragment) :
    Yields (fold c pos body) s fun g _ => g = body ∨ AppendsCode .empty g := by
  refine yields_get_bind ?_
  simp only
  split
  · split
    · exact (yields_appendsCode_pushValues _).mono fun _ _ hg => Or.inr hg
    · exact yields_pure (Or.inl rfl)
  · exact yields_pure (Or.inl rfl)

/-! ### Pipelines -/

/-- What an operand that is not put together from others adds is its own. -/
theorem attributed_leaf {a : Operand} {argc : Nat}
    (hspans : a.spans c argc f s = listAfter (operand c argc f a) s fun f' _ => [⟨f.size, f'.size, a.pos⟩])
    (h : Yields (operand c argc f a) s fun f' _ => ∃ g, AppendsCode f g ∧ f' = g.mark a.pos) :
    Yields (operand c argc f a) s fun f' _ => Attributed (a.spans c argc f s) f f' := by
  intro f' s' hrun
  obtain ⟨g, hg, rfl⟩ := h f' s' hrun
  rw [hspans, listAfter_of_ok hrun]
  exact hg.own a.pos

/-- An operand that is not put together from others adds code and an entry for it. -/
theorem yields_leaf {a : Operand} (hleaf : a.isLeaf) (argc : Nat) (f : Fragment) (s : State) :
    Yields (operand c argc f a) s fun f' _ => ∃ g, AppendsCode f g ∧ f' = g.mark a.pos := by
  unfold operand
  cases a with
  | bool pos b => exact .bind (yields_appendsCode_pushValue _) fun g s₁ hg => yields_pure ⟨g, hg, rfl⟩
  | number n =>
    simp only
    split
    · exact .bind (yields_appendsCode_pushValue _) fun g s₁ hg => yields_pure ⟨g, hg, rfl⟩
    · exact yields_fail
  | string pos str =>
    exact .bind (yields_self _) fun index s₁ _ => yields_pure ⟨_, (AppendsCode.refl f).push rfl, rfl⟩
  | nil pos => exact .bind (yields_appendsCode_pushValue _) fun g s₁ hg => yields_pure ⟨g, hg, rfl⟩
  | dot pos => exact yields_pure ⟨_, (AppendsCode.refl f).push rfl, rfl⟩
  | field pos path =>
    exact .bind (yields_appendsCode_fields argc path) fun g s₁ hg =>
      yields_pure ⟨g, ((AppendsCode.refl f).push rfl).trans hg, rfl⟩
  | var v =>
    exact .bind (yields_self _) fun name s₁ _ =>
      .bind (yields_appendsCode_fields argc v.fields) fun g s₂ hg =>
        yields_pure ⟨g, ((AppendsCode.refl f).push rfl).trans hg, rfl⟩
  | ident pos name =>
    exact .bind (yields_appendsCode_identifier argc name) fun g s₁ hg => yields_pure ⟨g, hg, rfl⟩
  | chain | paren => cases hleaf

mutual

/-- The instructions of an operand are attributed to it. -/
theorem yields_attributed_operand : ∀ (a : Operand) (argc : Nat) (f : Fragment) (s : State),
    Yields (operand c argc f a) s fun f' _ => Attributed (a.spans c argc f s) f f'
  | .bool .., argc, f, s | .number _, argc, f, s | .string .., argc, f, s | .nil _, argc, f, s
  | .dot _, argc, f, s | .field .., argc, f, s | .var _, argc, f, s | .ident .., argc, f, s =>
    attributed_leaf rfl (yields_leaf rfl argc f s)
  | .chain pos inner path, argc, f, s => by
    refine .bind (yields_attributed_operand inner 0 f s).and_self fun g s₁ hg => ?_
    refine .bind (yields_appendsCode_fields argc path).and_self fun f' s₂ hf' => yields_pure ?_
    simp only [Operand.spans, listAfter_of_ok hg.1, listAfter_of_ok hf'.1]
    exact hg.2.trans (hf'.2.own pos)
  | .paren p, argc, f, s => by
    refine .bind (yields_attributed_pipeline true p s) fun g s₁ hg => ?_
    simp only
    split
    · exact .bind (yields_self _) fun name s₂ _ => yields_pure (((hg.append f).push _).mark _)
    · exact yields_pure ((hg.append f).mark _)

/-- The instructions of operands are attributed to them. -/
theorem yields_attributed_operands : ∀ (args : List Operand) (argc : Nat) (f : Fragment) (s : State),
    Yields (operands c argc f args) s fun f' _ => Attributed (Operand.allSpans c argc f s args) f f'
  | [], argc, f, s => yields_pure (Fragment.attributed_refl f)
  | a :: rest, argc, f, s => by
    refine .bind (yields_attributed_operands rest 0 f s).and_self fun g s₁ hg => ?_
    refine (yields_attributed_operand a argc g s₁).mono fun f' s₂ hf' => ?_
    simp only [Operand.allSpans, listAfter_of_ok hg.1]
    exact hg.2.trans hf'

/-- The instructions of a command are attributed to its operands. -/
theorem yields_attributed_command : ∀ (cmd : Command) (chained : Bool) (f : Fragment) (s : State),
    Yields (command c chained f cmd) s fun f' _ => Attributed (cmd.spans c chained f s) f f'
  | .mk pos args, chained, f, s => by
    unfold command
    simp only
    split
    · exact .bind (yields_attributed_operands args _ f s) fun g s₁ hg => yields_pure (hg.mark pos)
    · exact yields_fail

/-- The instructions of a chain of commands are attributed to their operands. -/
theorem yields_attributed_commands : ∀ (cmds : List Command) (chained : Bool) (f : Fragment) (s : State),
    Yields (commands c chained f cmds) s fun f' _ =>
      Attributed (Command.allSpans c chained f s cmds) f f'
  | [], chained, f, s => yields_pure (Fragment.attributed_refl f)
  | cmd :: rest, chained, f, s => by
    refine .bind (yields_attributed_command cmd chained f s).and_self fun g s₁ hg => ?_
    refine (yields_attributed_commands rest true g s₁).mono fun f' s₂ hf' => ?_
    simp only [Command.allSpans, listAfter_of_ok hg.1]
    exact hg.2.trans hf'

/-- The instructions of a pipeline are attributed to its operands. -/
theorem yields_attributed_pipeline (binds : Bool) : ∀ (p : Pipeline) (s : State),
    Yields (pipeline c binds p) s fun g _ => Attributed (p.spans c s) .empty g
  | .mk pos assign decl cmds, s => by
    refine .bind (yields_attributed_commands cmds false .empty s).and_self fun body s₁ hbody => ?_
    refine .bind (yields_appendsCode_fold body).and_self fun g s₂ hg => ?_
    have hfolded : Attributed (Pipeline.spans c s (.mk pos assign decl cmds)) .empty g := by
      simp only [Pipeline.spans, listAfter_of_ok hbody.1, listAfter_of_ok hg.1]
      split
      · next heq => exact heq ▸ hbody.2
      · next hne => exact (hg.2.resolve_left hne).attributed
    have hmark {g' : Fragment} (hg' : AppendsCode g g') :
        Attributed (Pipeline.spans c s (.mk pos assign decl cmds)) .empty (g'.mark pos) := by
      simpa using (hfolded.trans hg'.attributed).mark pos
    cases binds
    · exact yields_pure (hmark (.refl g))
    · exact .bind (yields_appendsCode_bindAll assign decl) fun _ _ hg' => yields_pure (hmark hg')

end

/-! ### Statements -/

/-- Balanced code is the code, perhaps behind a `MARK`, and a `POP`. -/
theorem held_eq {b : Fragment} (hstraight : Straight g.instrs) (h : g.balance = .ok b) :
    ∃ front : Array Instr, b.takePop.1 = (Fragment.ofCode front).append g ∧
      b = b.takePop.1.addPop b.takePop.2 := by
  have hempty : g = (Fragment.ofCode #[]).append g := (Fragment.empty_append g).symm
  unfold Fragment.balance at h
  simp only at h
  split at h
  · cases h
    rw [Fragment.takePop_push_pop]
    exact ⟨#[.mark], Fragment.prepend_eq_append g .mark, rfl⟩
  · split at h
    · cases h
    · split at h
      · cases h
        rw [Fragment.takePop_of_straight hstraight]
        exact ⟨#[], hempty, rfl⟩
      · split at h
        · cases h
          rw [Fragment.takePop_push_pop]
          exact ⟨#[], hempty, rfl⟩
        · cases h

/-- The spans of code move with it when it is balanced. -/
theorem yields_attributed_balanced (hstraight : Straight g.instrs) (hg : Attributed spans .empty g) :
    Yields (balanced c pos g) s fun b s' => s' = s ∧
      Attributed (heldSpans g spans) .empty b.takePop.1 ∧ b = b.takePop.1.addPop b.takePop.2 := by
  unfold balanced
  split
  · next b hb =>
    obtain ⟨front, hheld, hpop⟩ := held_eq hstraight hb
    have hsize : b.takePop.1.size - g.size = (Fragment.ofCode front).size := by
      rw [hheld, Fragment.size_append]
      omega
    have hfront : Attributed [] .empty (Fragment.ofCode front) := by
      simpa using (Fragment.attributed_refl .empty).add (Fragment.tidy_ofCode front)
    refine yields_pure ⟨rfl, ?_, hpop⟩
    simp only [heldSpans, hb, hsize]
    rw [hheld]
    simpa using hfront.trans (hg.append (Fragment.ofCode front))
  · exact yields_fail

/-- Text has no operands. -/
theorem yields_attributed_text (str : String) :
    Yields (text c pos f str) s fun f' _ => Attributed [] f f' := by
  unfold text
  simp only
  split
  · exact yields_pure (Fragment.attributed_refl f)
  · exact (yields_appendsCode_pushBytes _).mono fun _ _ hg => hg.attributed

/-- The instructions of an action are attributed to its operands. -/
theorem yields_attributed_action (pipe : Pipeline) :
    Yields (action c pos f pipe) s fun f' _ =>
      Attributed ((Node.action pos pipe).spans c f s) f f' := by
  refine .bind (yields_attributed_pipeline true pipe s).and_self fun g s₁ hg =>
    yields_get_bind (yields_set_bind ?_)
  have hstraight := (yields_emitsBindings pipe g s₁ hg.1).1.straight
  obtain ⟨hprinted, hstraight⟩ : Attributed (pipe.spans c s) .empty
        (if pipe.decl.isEmpty && !s₁.noPrint then g.push .print else g) ∧
      Straight (if pipe.decl.isEmpty && !s₁.noPrint then g.push .print else g).instrs := by
    split
    · refine ⟨hg.2.push _, ?_⟩
      rw [Fragment.instrs_push]
      exact hstraight.append (straight_singleton rfl)
    · exact ⟨hg.2, hstraight⟩
  simp only [Node.spans, listAfter_of_ok hg.1]
  split
  · next str hconstant =>
    simp only [hconstant, Option.isSome_some, if_true]
    split
    · exact yields_pure (Fragment.attributed_refl f)
    · exact (yields_appendsCode_pushBytes _).mono fun _ _ hbytes => hbytes.attributed
  · next hconstant =>
    simp only [hconstant, Option.isSome_none, Bool.false_eq_true, if_false]
    refine .bind (yields_attributed_balanced hstraight hprinted) fun b s₂ hb => yields_pure ?_
    obtain ⟨-, hheld, hpop⟩ := hb
    rw [hpop, Fragment.addPop_eq_append]
    exact (hheld.add (Fragment.tidy_ofCode _)).append f

/-- A template call keeps what its pipeline has attributed, behind what holds it. -/
theorem yields_attributed_templateBehind {g : Fragment} {s₁ : State} {spans : List Span} (name : String)
    (hstraight : Straight g.instrs) (hg : Attributed spans .empty g) :
    Yields (templateBehind c pos f name g) s₁ fun f' _ =>
      Attributed ((heldSpans g spans).map (Span.shift f.size)) f f' := by
  refine .bind (yields_attributed_balanced hstraight hg) fun b s₂ hb => ?_
  refine .bind (yields_self _) fun ns s₃ _ => .bind (yields_self _) fun index s₄ _ => yields_pure ?_
  rw [Fragment.addPop_eq_append]
  exact ((hb.2.1.append f).push _).add (Fragment.tidy_ofCode _)

/-- The instructions of a template call are attributed to its operands. -/
theorem yields_attributed_templateCall (name : String) (pipe : Option Pipeline) :
    Yields (templateCall c pos f name pipe) s fun f' _ =>
      Attributed ((Node.template pos name pipe).spans c f s) f f' := by
  refine .templateCall fun _ => ?_
  cases pipe with
  | some pipe =>
    refine (yields_attributed_pipeline true pipe s).and_self.mono fun g s₁ hg => ?_
    simp only [Node.spans, listAfter_of_ok hg.1]
    exact yields_attributed_templateBehind name (yields_emitsBindings pipe g s₁ hg.1).1.straight hg.2
  | none =>
    refine (yields_appendsCode_pushValue .nil).mono fun g s₁ hg => ?_
    have hnone : heldSpans g [] = [] := by
      unfold heldSpans
      split <;> rfl
    simpa [Node.spans, hnone] using yields_attributed_templateBehind name hg.straight hg.attributed

/-! ### Branches -/

/-- A scope of its own attributes what its nodes attribute. -/
theorem yields_attributed_inScope {x : M Fragment}
    (h : Yields x { s with declared := [] } fun g _ => Attributed spans .empty g) :
    Yields (inScope x) s fun g _ => Attributed spans .empty g := by
  refine yields_get_bind (yields_modify_bind (.bind h fun g s₁ hg => ?_))
  refine yields_get_bind (yields_modify_bind (yields_pure ?_))
  rw [unsetAll_eq_append]
  exact hg.add (Fragment.tidy_ofCode _)

/-- The spans of a branch move with the parts that its layout puts together. -/
theorem attributed_layout (kind : BranchKind) (assign : Bool) (decl : List Nat) (parts : BranchParts)
    {held : Fragment} {inCondition inBody inElse : List Span}
    (hcondition : Attributed inCondition .empty held) (hbody : Attributed inBody .empty parts.body)
    (hother : Attributed inElse .empty (parts.orElse.getD .empty)) :
    Attributed (inCondition ++
        inBody.map (Span.shift (held.size + bodyStart kind decl parts.orElse.isSome)) ++
        inElse.map (Span.shift ((layout kind held assign decl parts).size -
          ((popCode parts.pop).length + (parts.orElse.getD .empty).size))))
      .empty (layout kind held assign decl parts) := by
  obtain ⟨before, between, rest, hlayout, hbefore, hrest⟩ := layout_eq kind held assign decl parts
  have hfront : (held.append (.ofCode before)).size =
      held.size + bodyStart kind decl parts.orElse.isSome := by
    rw [Fragment.size_append, ← hbefore]
    rfl
  have hbehind : (((held.append (.ofCode before)).append parts.body).append (.ofCode between)).size =
      (layout kind held assign decl parts).size -
        ((popCode parts.pop).length + (parts.orElse.getD .empty).size) := by
    have hlast : (Fragment.ofCode rest).size = (popCode parts.pop).length := hrest
    rw [hlayout, Fragment.size_append _ (.ofCode rest), Fragment.size_append _ (parts.orElse.getD .empty)]
    omega
  rw [← hfront, ← hbehind, hlayout]
  have hopened := (hcondition.add (Fragment.tidy_ofCode before)).trans
    (hbody.append (held.append (.ofCode before)))
  exact ((hopened.add (Fragment.tidy_ofCode between)).trans (hother.append _)).add
    (Fragment.tidy_ofCode rest)

mutual

/-- The instructions of a node are attributed to its operands. -/
theorem yields_attributed_node : ∀ (n : Node) (f : Fragment) (s : State),
    Yields (node c f n) s fun f' _ => Attributed (n.spans c f s) f f'
  | .list ⟨pos, ns⟩, f, s =>
    .bind (yields_attributed_nodes ns f s) fun _ _ hg => yields_pure (hg.mark pos)
  | .text pos str, f, s => .bind (yields_attributed_text str) fun _ _ hg => yields_pure (hg.mark pos)
  | .action pos pipe, f, s =>
    .bind (yields_attributed_action pipe) fun _ _ hg => yields_pure (hg.mark pos)
  | .comment pos str, f, s => yields_pure ((Fragment.attributed_refl f).mark pos)
  | .branch kind pos pipe ⟨bodyPos, ns⟩ orElse, f, s => by
    refine .bind (yields_attributed_pipeline false pipe s).and_self fun condition s₁ hcondition => ?_
    have hstraight := (yields_condition_emitsBindings pipe condition s₁ hcondition.1).1.straight
    have htaken := yields_attributed_inScope (s := s₁)
      (x := (return (← nodes c .empty ns).mark bodyPos))
      (.bind (yields_attributed_nodes ns .empty _) fun _ _ hg => yields_pure (hg.mark bodyPos))
    refine .bind htaken.and_self fun taken s₂ htaken => ?_
    refine .bind (yields_attributed_alternative orElse s₂).and_self fun other s₃ hother => ?_
    refine .bind (yields_attributed_balanced hstraight hcondition.2).and_self fun b s₄ hb => ?_
    obtain ⟨held, pop, htake⟩ : ∃ held pop, b.takePop = (held, pop) := ⟨_, _, rfl⟩
    have hheld := hb.2.2.1
    rw [htake] at hheld ⊢
    refine .bind (yields_self _) fun decl s₅ hdecl => ?_
    simp only
    split
    · apply yields_pure
      simp only [Node.spans, listAfter_of_ok hcondition.1, listAfter_of_ok htaken.1,
        listAfter_of_ok hother.1, listAfter_of_ok hb.1, listAfter_of_ok hdecl, htake]
      have hwhole := attributed_layout kind pipe.assign decl ⟨taken, other, pop⟩ hheld htaken.2
        hother.2
      exact (hwhole.append f).mark pos
    · exact yields_fail
  | .template pos name pipe, f, s =>
    .bind (yields_attributed_templateCall name pipe) fun _ _ hg => yields_pure (hg.mark pos)
  | .breakLoop pos, f, s | .continueLoop pos, f, s => yields_fail

/-- The instructions of nodes are attributed to their operands. -/
theorem yields_attributed_nodes : ∀ (ns : List Node) (f : Fragment) (s : State),
    Yields (nodes c f ns) s fun f' _ => Attributed (Node.allSpans c f s ns) f f'
  | [], f, s => yields_pure (Fragment.attributed_refl f)
  | n :: rest, f, s => by
    refine .bind (yields_attributed_node n f s).and_self fun g s₁ hg => ?_
    refine (yields_attributed_nodes rest g s₁).mono fun f' s₂ hf' => ?_
    simp only [Node.allSpans, listAfter_of_ok hg.1]
    exact hg.2.trans hf'

/-- The instructions of an alternative are attributed to its operands. -/
theorem yields_attributed_alternative : ∀ (orElse : Option (Block Node)) (s : State),
    Yields (alternative c orElse) s fun e _ =>
      Attributed (Node.elseSpans c s orElse) .empty (e.getD .empty)
  | none, s => yields_pure (Fragment.attributed_refl .empty)
  | some ⟨pos, ns⟩, s => by
    refine .bind (yields_attributed_inScope
      (.bind (yields_attributed_nodes ns .empty _) fun _ _ hg => yields_pure (hg.mark pos)))
      fun g s₁ hg => yields_pure ?_
    split
    · next hempty => exact hg.of_isEmpty hempty
    · exact hg

end

end Compile
end Stencil
