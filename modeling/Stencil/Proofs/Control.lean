import Stencil.Proofs.Sites

/-!
# Conditionals and ranges

What the branches of a well-formed set do in its compiled program. A conditional takes the way that
the value of its condition selects, a range takes one turn per element. Either of them goes on right
behind its code with the stacks and the dot that it found, whatever its condition left behind.
-/

namespace Stencil

/-- The positions and elements of a value that a range runs over; pointers and boxes are followed. -/
inductive Value.Elements : Value → List (Value × Value) → Prop where
  | nil : Elements .nil []
  | nilPtr : Elements .nilPtr []
  | nilBox : Elements .nilBox []
  | seq (items : List Value) : Elements (.seq items)
      (items.zipIdx.map fun item => (Iteration.position item.2, item.1.addressed.unboxed))
  | map (kind : KeyKind) (entries : List (Key × Value)) : Elements (.map kind entries)
      (entries.map fun entry => (entry.1.toValue, entry.2.unboxed))
  | ptr {v : Value} {elements : List (Value × Value)} (h : Elements v elements) :
      Elements (.ptr v) elements
  | box {v : Value} {elements : List (Value × Value)} (h : Elements v elements) :
      Elements (.box v) elements

/-- The entries of a sequence are its items with their positions. -/
theorem Iteration.seqEntries_eq_map (n : Nat) (items : List Value) :
    seqEntries n items =
      (items.zipIdx n).map fun item => (position item.2, item.1.addressed.unboxed) := by
  induction items generalizing n with
  | nil => rfl
  | cons v rest ih => rw [seqEntries, ih, List.zipIdx_cons, List.map_cons]

/-- An iteration over a value with elements is one over its elements. -/
theorem Value.Elements.start {v : Value} {elements : List (Value × Value)} (h : v.Elements elements) :
    Iteration.start v = .ok (.entries elements) := by
  induction h with
  | nil | nilPtr | nilBox => rfl
  | seq items => rw [Iteration.start, Iteration.seqEntries_eq_map]
  | map kind entries => rfl
  | ptr h ih => exact ih
  | box h ih => exact ih

namespace Effect

end Effect

namespace Compile

namespace Site

variable {c : Context} {p : Program} {k : Nat} {kind : BranchKind} {pos : Pos} {pipe : Pipeline}
  {body : Block Node} {orElse : Option (Block Node)} {S : Site c p k kind pos pipe body orElse}
  {m l : Machine} {v : Value} {stack : List Value}

/-- What a conditional does with the value of its condition: it runs its body, with the value as its
variable and for a `with` also as its dot, or its alternative, with neither. -/
def select (S : Site c p k kind pos pipe body orElse) (v : Value) : Effect :=
  if v.isTrue then
    S.runTaken.scope p.tables false (S.decl.map (·, v)) (if kind = .withDot then some v else none)
  else S.runOther

/-- One turn of a range: it runs its body with the element as its dot and the variables of the range
bound to the element, or to the position and the element. -/
def turn (S : Site c p k kind pos pipe body orElse) (position v : Value) : Effect :=
  S.runTaken.scope p.tables pipe.assign (rangeVars S.decl position v) (some v)

/-- A branch without variables has no indices for them. -/
theorem decl_eq_nil (h : pipe.decl = []) : S.decl = [] := by
  rw [← List.length_eq_zero_iff, S.length_decl, h, List.length_nil]

/-- What a conditional that assigns no variable does with the value of its condition. -/
theorem branch_eq_select (hkind : kind ≠ .range) (hassign : pipe.assign → pipe.decl = []) (v : Value) :
    Effect.branch p.tables kind pipe.assign S.decl S.runTaken S.runOther v = S.select v := by
  have hscope (dot : Option Value) :
      S.runTaken.scope p.tables pipe.assign (S.decl.map (·, v)) dot =
        S.runTaken.scope p.tables false (S.decl.map (·, v)) dot := by
    cases hassigned : pipe.assign with
    | false => rfl
    | true =>
      rw [S.decl_eq_nil (hassign hassigned)]
      rfl
  cases kind with
  | ifThen =>
    simp only [Effect.branch, select, hscope, reduceCtorEq, if_false]
  | withDot =>
    simp only [Effect.branch, select, hscope, if_true]
  | range => exact absurd rfl hkind

/-- The condition of a branch leaves the dot alone. -/
theorem Sound.dot_condition (hS : S.Sound) (hcondition : p.env.Runs S.condition m (.done l)) :
    l.dot = m.dot :=
  (Machine.follows_steps hS.straight ((p.env.runs_straight hS.straight).mp hcondition).symm).dot

/-- What a conditional selects leaves the stacks and the dot alone. -/
theorem Sound.neutral_select (hS : S.Sound) (v : Value) : (S.select v).Neutral [] := by
  unfold select
  split
  · exact hS.neutral_taken.scope
  · exact hS.neutral_other

end Site

section

variable {schema : Schema} {registry : Registry} {options : CompileOptions} {set : TemplateSet}
  {p : Program} {name : String} {tree : Tree} {k : Nat} {kind : BranchKind} {pos : Pos}
  {pipe : Pipeline} {body : Block Node} {orElse : Option (Block Node)}

/-- Every `if` or `with` of a well-formed set that assigns no variable has a site, and there it runs its
body once if the value of its condition is true, and its alternative once if it is false. It goes on
right behind its code with the stacks and the dot as they were before it. -/
theorem conditional_runs_selected_way (hwf : set.wellFormed)
    (hcompile : compile schema registry options set = .ok p) (htree : set.get? name = some tree)
    (hnode : (Node.allInside tree.root.nodes)[k]? = some (.branch kind pos pipe body orElse))
    (hkind : kind ≠ .range) (hassign : pipe.assign → pipe.decl = []) :
    Nonempty (Site ⟨set, registry, options, schema, name, tree.source⟩ p k kind pos pipe body orElse) ∧
    ∀ (S : Site ⟨set, registry, options, schema, name, tree.source⟩ p k kind pos pipe body orElse)
      m l v stack, p.env.Runs S.condition m (.done l) → l.stack = v :: stack →
        l.dot = m.dot ∧
        (∀ o, p.RunsFrom name S.template S.start m o ↔
          ((S.select v).andThen (p.RunsFrom name S.template S.stop)) (l.within m.frame) o) ∧
        ∀ m', S.select v (l.within m.frame) (.done m') → m'.frame = m.frame ∧ m'.dot = m.dot := by
  refine ⟨nonempty_site hwf hcompile htree hnode, fun S m l v stack hcondition hstack => ?_⟩
  obtain ⟨hS, -⟩ := S.sound_scoped hwf hcompile htree
  have hdot := hS.dot_condition hcondition
  refine ⟨hdot, fun o => ?_, fun m' hselect => ?_⟩
  · have hrun := hS.runsFrom_of_condition (o := o) hcondition hstack
    rw [S.branch_eq_select hkind hassign] at hrun
    exact hrun
  · have hneutral := hS.neutral_select v
    have hframe := hneutral.frame hselect
    rw [Machine.frame_within] at hframe
    exact ⟨hframe, (hneutral.dot hselect).trans hdot⟩

/-- A pipeline that is nothing but the dot is compiled to code that pushes the dot. -/
theorem instrs_dotPipe {c : Context} {vars : List String} {g : Fragment} {s s' : State}
    (h : pipeline c false (Sample.dotPipe vars) s = .ok (g, s')) : g.instrs = [.dot] := by
  obtain ⟨f, s₁, hcommands, hrest⟩ := bind_eq_ok.mp h
  cases hcommands
  obtain ⟨f', s₂, hfold, hmark⟩ := bind_eq_ok.mp hrest
  have hkept : fold c 0 (((Fragment.empty.push .dot).mark 0).mark 0) s =
      .ok (((Fragment.empty.push .dot).mark 0).mark 0, s) := by
    simp [fold, Fragment.size, Fragment.push, Fragment.mark, Fragment.empty]
    rfl
  cases hkept.symm.trans hfold
  cases hmark
  rfl

/-- A pipeline that is nothing but the dot leaves the dot on top. -/
theorem runs_dot (p : Program) (m : Machine) : p.env.Runs [.dot] m (.done (m.push m.dot)) :=
  (Env.runs_singleton_of_step p.env rfl (by simp) rfl _).mpr rfl

/-- The conditional of the sample set asks for its dot. -/
theorem conditional_runs_selected_way_sample :
    Sample.set.wellFormed ∧ Sample.set.get? "main" = some Sample.main ∧
      (Node.allInside Sample.main.root.nodes)[1]? = some Sample.item ∧
      ∃ p, compile .plain .empty .standard Sample.set = .ok p ∧
        ∃ S : Site ⟨Sample.set, .empty, .standard, .plain, "main", none⟩ p 1 .ifThen 0 (Sample.dotPipe [])
            ⟨0, [.action 0 (.mk 0 false [] [.mk 0 [.var ⟨0, ["$i"]⟩]])]⟩ (some ⟨0, [.text 0 "-"]⟩),
          ∀ m o, p.RunsFrom "main" S.template S.start m o ↔
            ((S.select m.dot).andThen (p.RunsFrom "main" S.template S.stop)) m o := by
  obtain ⟨p, hp⟩ := exists_compile_sample
  have hget : Sample.set.get? "main" = some Sample.main := rfl
  have hnode : (Node.allInside Sample.main.root.nodes)[1]? = some Sample.item := rfl
  obtain ⟨⟨S⟩, hS⟩ := conditional_runs_selected_way Sample.wellFormed_set hp hget hnode
    (by decide) (fun _ => rfl)
  refine ⟨Sample.wellFormed_set, hget, hnode, p, hp, S, fun m o => ?_⟩
  have hcondition : p.env.Runs S.condition m (.done (m.push m.dot)) := by
    rw [Site.condition, instrs_dotPipe S.steps.compiled_condition]
    exact runs_dot p m
  exact (hS S m (m.push m.dot) m.dot m.stack hcondition rfl).2.1 o

end

end Compile
end Stencil
