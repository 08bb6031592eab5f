import Stencil.Proofs.Templates

/-!
# Pieces of templates

The nodes of a template, of a body and of an alternative are each compiled to a piece of code of their
own, beginning with none. In the program of any set that can be compiled, well-formed or not, each piece
lies in the code of its template, where it can only be entered at its start. What stands in front of a
node in its piece has been compiled to what is in front of the node's code there.
-/

namespace Stencil

/-- Whether a node stands among nodes, in no body of theirs, and behind which nodes. -/
inductive Node.Follows (n : Node) : List Node → List Node → Prop where
  | here (rest : List Node) : Follows n [] (n :: rest)
  | behind {before rest : List Node} (m : Node) (h : Follows n before rest) :
      Follows n (m :: before) (m :: rest)
  | inList {before ns : List Node} (pos : Pos) (rest : List Node) (h : Follows n before ns) :
      Follows n before (.list ⟨pos, ns⟩ :: rest)

/-- Whether nodes are those of a whole template, or those of a body or an alternative in it. -/
inductive Node.IsPiece (ns : List Node) : List Node → Prop where
  | whole : IsPiece ns ns
  | body {root : List Node} (kind : BranchKind) (pos bodyPos : Pos) (pipe : Pipeline)
      (orElse : Option (Block Node))
      (h : (Node.branch kind pos pipe ⟨bodyPos, ns⟩ orElse).Occurs root) : IsPiece ns root
  | orElse {root : List Node} (kind : BranchKind) (pos elsePos : Pos) (pipe : Pipeline)
      (body : Block Node) (h : (Node.branch kind pos pipe body (some ⟨elsePos, ns⟩)).Occurs root) :
      IsPiece ns root

namespace Compile

variable {c : Context} {pos : Pos} {s s' s₁ : State} {f f' g : Fragment} {n : Node} {ns root : List Node}
  {t t' : Tables} {whole whole' : List Instr}

/-! ### Nodes in a row -/

/-- The code of nodes is the code of the first one and then that of the others. -/
theorem nodes_cons_split {rest : List Node} (h : nodes c f (n :: rest) s = .ok (g, s')) :
    ∃ f₁ s₁ code code', node c f n s = .ok (f₁, s₁) ∧ nodes c f₁ rest s₁ = .ok (g, s') ∧
      f₁.instrs = f.instrs ++ code ∧ g.instrs = f₁.instrs ++ code' ∧ Closed code ∧ Closed code' ∧
      s₁.tables.Extends s'.tables ∧ (s.tables.Sound → s₁.tables.Sound) := by
  obtain ⟨f₁, s₁, hn, hrest⟩ := bind_eq_ok.mp h
  obtain ⟨code, _, hcode, hwrites⟩ := yields_node n f s f₁ s₁ hn
  obtain ⟨code', _, hcode', hwrites'⟩ := yields_nodes rest f₁ s₁ g s' hrest
  exact ⟨f₁, s₁, code, code', hn, hrest, hcode, hcode', hwrites.closed, hwrites'.closed,
    hwrites'.extends_, hwrites.sound⟩

/-- A list of nodes is compiled to the code of its nodes. -/
theorem list_eq_ok (h : node c f (.list ⟨pos, ns⟩) s = .ok (g, s')) :
    ∃ g', nodes c f ns s = .ok (g', s') ∧ g.instrs = g'.instrs := by
  obtain ⟨g', s₁, hns, hmark⟩ := bind_eq_ok.mp h
  cases hmark
  exact ⟨g', hns, rfl⟩

/-! ### The parts of a branch -/

namespace BranchSteps

variable {kind : BranchKind} {pipe : Pipeline} {body : Block Node} {orElse : Option (Block Node)}
  (B : BranchSteps c kind pipe body orElse s s')

/-- The nodes of the body are compiled to a piece of the branch. -/
theorem exists_body : ∃ s₁ g s₂, (s.tables.Sound → s₁.tables.Sound) ∧
    nodes c .empty body.nodes s₁ = .ok (g, s₂) ∧ s₂.tables.Extends s'.tables ∧ Enclosed g.instrs B.instrs := by
  obtain ⟨g, s₁, hx, hafter, hcode⟩ := inScope_eq_ok B.compiled_taken
  obtain ⟨g', s₂, hns, hmark⟩ := bind_eq_ok.mp hx
  cases hmark
  refine ⟨{ B.afterCondition with declared := [] }, g', s₁, B.emits_condition.sound, hns, ?_, ?_⟩
  · have hextends := B.extends_afterTaken
    rwa [hafter] at hextends
  · have hcode : B.taken.instrs = g'.instrs ++ unsetCode s₁.declared := hcode
    have hin : Enclosed g'.instrs B.taken.instrs := hcode ▸ .append_left _ (closed_unsetCode _)
    exact (hin.trans (body_enclosed_branchCode kind pipe.assign B.decl B.pop B.closed_other)).trans
      (.append_right B.closed_header _)

/-- The nodes of the alternative are compiled to a piece of the branch. -/
theorem exists_other {elsePos : Pos} (B : BranchSteps c kind pipe body (some ⟨elsePos, ns⟩) s s') :
    ∃ s₁ g s₂, (s.tables.Sound → s₁.tables.Sound) ∧ nodes c .empty ns s₁ = .ok (g, s₂) ∧
      s₂.tables.Extends s'.tables ∧ Enclosed g.instrs B.instrs := by
  obtain ⟨h, s₁, hscope, hother⟩ := bind_eq_ok.mp B.compiled_other
  obtain ⟨g, s₂, hx, hafter, hcode⟩ := inScope_eq_ok hscope
  obtain ⟨g', s₃, hns, hmark⟩ := bind_eq_ok.mp hx
  cases hmark
  obtain ⟨hvalue, hstate⟩ := Prod.mk.inj (Except.ok.inj hother)
  refine ⟨{ B.afterTaken with declared := [] }, g', s₂, B.sound_afterTaken, hns, ?_, ?_⟩
  · have hextends := B.grows_decl.extends_
    rwa [← hstate, hafter] at hextends
  · have hcode : h.instrs = g'.instrs ++ unsetCode s₂.declared := hcode
    have hinstrs : B.otherInstrs = h.instrs := by rw [otherInstrs, ← hvalue, instrs_other]
    have hin : Enclosed g'.instrs B.otherInstrs :=
      hinstrs ▸ hcode ▸ .append_left _ (closed_unsetCode _)
    exact (hin.trans (other_enclosed_branchCode kind pipe.assign B.decl B.pop B.closed_taken)).trans
      (.append_right B.closed_header _)

end BranchSteps

/-! ### Where nodes and pieces lie -/

/-- Whether a node has been compiled to a part of code that can only be entered at its start. -/
def Lies (c : Context) (n : Node) (t : Tables) (whole : List Instr) : Prop :=
  ∃ f s f' s' code, s.tables.Sound ∧ node c f n s = .ok (f', s') ∧ f'.instrs = f.instrs ++ code ∧
    s'.tables.Extends t ∧ Enclosed code whole

/-- A piece stays where it is when its code is enclosed in more code and the tables grow. -/
theorem Lies.mono (h : Lies c n t whole) (hwhole : Enclosed whole whole') (hextends : t.Extends t') :
    Lies c n t' whole' := by
  obtain ⟨f, s, f', s', code, hs, hn, hcode, ht, hin⟩ := h
  exact ⟨f, s, f', s', code, hs, hn, hcode, ht.trans hextends, hin.trans hwhole⟩

/-- A node that occurs among nodes lies in their code. -/
theorem exists_lies (h : n.Occurs ns) (hrun : nodes c f ns s = .ok (g, s')) (hs : s.tables.Sound) :
    ∃ whole, g.instrs = f.instrs ++ whole ∧ Lies c n s'.tables whole := by
  induction h generalizing f s g s' with
  | here rest =>
    obtain ⟨f₁, s₁, code, code', hn, -, hcode, hcode', -, hclosed', hextends, -⟩ := nodes_cons_split hrun
    refine ⟨code ++ code', by rw [hcode', hcode, List.append_assoc], f, s, f₁, s₁, code, hs, hn, hcode,
      hextends, .append_left code hclosed'⟩
  | behind first _ ih =>
    obtain ⟨f₁, s₁, code, code', -, hrest, hcode, hcode', hclosed, -, -, hsound⟩ := nodes_cons_split hrun
    obtain ⟨whole, hwhole, hlies⟩ := ih hrest (hsound hs)
    exact ⟨code ++ whole, by rw [hwhole, hcode, List.append_assoc],
      hlies.mono (.append_right hclosed whole) (.refl _)⟩
  | inList pos rest _ ih =>
    obtain ⟨f₁, s₁, code, code', hn, -, hcode, hcode', -, hclosed', hextends, -⟩ := nodes_cons_split hrun
    obtain ⟨g', hns, hg'⟩ := list_eq_ok hn
    obtain ⟨whole, hwhole, hlies⟩ := ih hns hs
    refine ⟨whole ++ code', ?_, hlies.mono (.append_left whole hclosed') hextends⟩
    rw [hcode', hg', hwhole, List.append_assoc]
  | inBody kind pos bodyPos pipe orElse rest _ ih =>
    obtain ⟨f₁, s₁, code, code', hn, -, hcode, hcode', -, hclosed', hextends, -⟩ := nodes_cons_split hrun
    obtain ⟨B, hB⟩ := yields_branchSteps _ _ hn
    obtain ⟨s₂, g', s₃, hsound, hns, hextends', hin⟩ := B.exists_body
    obtain ⟨whole, hwhole, hlies⟩ := ih hns (hsound hs)
    have hwhole : g'.instrs = whole := hwhole
    refine ⟨B.instrs ++ code', by rw [hcode', hB, List.append_assoc], ?_⟩
    rw [hwhole] at hin
    exact hlies.mono (hin.trans (.append_left _ hclosed')) (hextends'.trans hextends)
  | inElse kind pos elsePos pipe body rest _ ih =>
    obtain ⟨f₁, s₁, code, code', hn, -, hcode, hcode', -, hclosed', hextends, -⟩ := nodes_cons_split hrun
    obtain ⟨B, hB⟩ := yields_branchSteps _ _ hn
    obtain ⟨s₂, g', s₃, hsound, hns, hextends', hin⟩ := B.exists_other
    obtain ⟨whole, hwhole, hlies⟩ := ih hns (hsound hs)
    have hwhole : g'.instrs = whole := hwhole
    refine ⟨B.instrs ++ code', by rw [hcode', hB, List.append_assoc], ?_⟩
    rw [hwhole] at hin
    exact hlies.mono (hin.trans (.append_left _ hclosed')) (hextends'.trans hextends)

/-- Each piece of a template has been compiled to a part of its code. -/
theorem exists_piece (h : Node.IsPiece ns root) (hrun : nodes c .empty root s = .ok (g, s'))
    (hs : s.tables.Sound) : ∃ s₁ g₁ s₂, nodes c .empty ns s₁ = .ok (g₁, s₂) ∧ s₂.tables.Extends s'.tables ∧
      Enclosed g₁.instrs g.instrs := by
  cases h with
  | whole => exact ⟨s, g, s', hrun, .refl _, .refl _⟩
  | body kind pos bodyPos pipe orElse hoccurs =>
    obtain ⟨whole, hwhole, f₀, s₀, f₁, s₁, code, -, hn, hcode, hextends, hin⟩ :=
      exists_lies hoccurs hrun hs
    obtain ⟨B, hB⟩ := yields_branchSteps _ _ hn
    obtain rfl : code = B.instrs := List.append_cancel_left (hcode.symm.trans hB)
    obtain ⟨s₂, g₂, s₃, -, hns, hextends', hin'⟩ := B.exists_body
    have hwhole : g.instrs = whole := hwhole
    exact ⟨s₂, g₂, s₃, hns, hextends'.trans hextends, hwhole ▸ hin'.trans hin⟩
  | orElse kind pos elsePos pipe body hoccurs =>
    obtain ⟨whole, hwhole, f₀, s₀, f₁, s₁, code, -, hn, hcode, hextends, hin⟩ :=
      exists_lies hoccurs hrun hs
    obtain ⟨B, hB⟩ := yields_branchSteps _ _ hn
    obtain rfl : code = B.instrs := List.append_cancel_left (hcode.symm.trans hB)
    obtain ⟨s₂, g₂, s₃, -, hns, hextends', hin'⟩ := B.exists_other
    have hwhole : g.instrs = whole := hwhole
    exact ⟨s₂, g₂, s₃, hns, hextends'.trans hextends, hwhole ▸ hin'.trans hin⟩

/-- A text of a piece has been compiled right behind the nodes in front of it. -/
theorem exists_text {str : String} {before : List Node} (h : (Node.text pos str).Follows before ns)
    (hrun : nodes c f ns s = .ok (g, s')) :
    ∃ front s₁ f' s₂ back, nodes c f before s = .ok (front, s₁) ∧ text c pos front str s₁ = .ok (f', s₂) ∧
      g.instrs = f'.instrs ++ back ∧ Closed back ∧ s₂.tables.Extends s'.tables := by
  induction h generalizing f s g s' with
  | here rest =>
    obtain ⟨f₁, s₁, code, code', hn, -, -, hcode', -, hclosed', hextends, -⟩ := nodes_cons_split hrun
    obtain ⟨f', s₂, htext, hmark⟩ := bind_eq_ok.mp hn
    cases hmark
    exact ⟨f, s, f', s₁, code', rfl, htext, hcode', hclosed', hextends⟩
  | behind m _ ih =>
    obtain ⟨f₁, s₁, code, code', hn, hrest, -⟩ := nodes_cons_split hrun
    obtain ⟨front, s₂, f', s₃, back, hbefore, htext, hback⟩ := ih hrest
    exact ⟨front, s₂, f', s₃, back, bind_eq_ok.mpr ⟨f₁, s₁, hn, hbefore⟩, htext, hback⟩
  | inList pos rest _ ih =>
    obtain ⟨f₁, s₁, code, code', hn, -, -, hcode', -, hclosed', hextends, -⟩ := nodes_cons_split hrun
    obtain ⟨g', hns, hg'⟩ := list_eq_ok hn
    obtain ⟨front, s₂, f', s₃, back, hbefore, htext, hback, hclosed, hextends'⟩ := ih hns
    refine ⟨front, s₂, f', s₃, back ++ code', hbefore, htext, ?_, hclosed.append hclosed',
      hextends'.trans hextends⟩
    rw [hcode', hg', hback, List.append_assoc]


end Compile

/-! ### Pieces of stitched programs -/

namespace Program

variable {p q : Program} {i i' : Instr} {name : String}

/-- A template that consists of a chunk stays as it is when others are stitched. -/
theorem Stitches.stitchTemplate (h : p.Stitches i i') : (p.stitchTemplate name).Stitches i i' := by
  rcases h with hsame | ⟨ns, index, target, t, chunk, hcall, htarget, ht, hcode, hchunk⟩
  · exact .inl hsame
  · obtain ⟨φ, hφ, htemplate⟩ := exists_replacing_stitchTemplate p name target
    rw [ht, Option.map_some] at htemplate
    refine .inr ⟨ns, index, target, _, chunk, hcall, ?_, htemplate, ?_, hchunk⟩
    · rwa [tables_stitchTemplate]
    · have hkept : φ (.wb chunk) = .wb chunk := hφ.fixes (by simp)
      rw [Array.toList_map, hcode, List.map_singleton, hkept]

/-- The code of a template, with what becomes of its calls while others are stitched. -/
theorem exists_stitches_stitchIn (names : List String) {φ : Instr → Instr} {code : Array Instr}
    {t : CompiledTemplate} (hφ : ∀ i, p.Stitches i (φ i))
    (ht : p.templates[name]? = some { t with code := code.map φ }) :
    ∃ ψ, (∀ i, (p.stitchIn names).Stitches i (ψ i)) ∧
      (p.stitchIn names).templates[name]? = some { t with code := code.map ψ } := by
  induction names generalizing p φ with
  | nil => exact ⟨φ, hφ, ht⟩
  | cons first names ih =>
    rw [stitchIn, List.foldl_cons]
    by_cases hfirst : first = name
    · subst hfirst
      refine ih (φ := p.stitchInstr ∘ φ) (fun i => ?_) ?_
      · apply Stitches.stitchTemplate
        rcases hφ i with hsame | ⟨ns, index, target, u, chunk, hcall, htarget, hu, hcode, hchunk⟩
        · have hsame' : (p.stitchInstr ∘ φ) i = p.stitchInstr i := congrArg p.stitchInstr hsame
          rw [hsame']
          exact p.stitches_stitchInstr i
        · have hchunk' : (p.stitchInstr ∘ φ) i = .wb chunk := congrArg p.stitchInstr hchunk
          exact .inr ⟨ns, index, target, u, chunk, hcall, htarget, hu, hcode, hchunk'⟩
      · simp only [Program.stitchTemplate, ht, Std.TreeMap.getElem?_insert_self, Array.map_map]
    · refine ih (fun i => (hφ i).stitchTemplate) ?_
      unfold Program.stitchTemplate
      split
      · exact ht
      · rw [Std.TreeMap.getElem?_insert, if_neg]
        · exact ht
        · intro heq
          exact hfirst (Std.compare_eq_iff_eq.mp heq)

end Program

namespace Compile

variable {set : TemplateSet} {registry : Registry} {options : CompileOptions} {schema : Schema}
  {p : Program} {name : String} {tree : Tree} {ns : List Node}

/-- A piece of a template in a compiled program. A call of a template that consists of a chunk may have
been replaced by the chunk. -/
theorem exists_piece_of_compile (hcompile : compile schema registry options set = .ok p)
    (htree : set.get? name = some tree) (hpiece : Node.IsPiece ns tree.root.nodes) :
    ∃ u φ s g s', p.templates[name]? = some u ∧ (∀ i, p.Stitches i (φ i)) ∧
      nodes ⟨set, registry, options, schema, name, tree.source⟩ .empty ns s = .ok (g, s') ∧
      s'.tables.Extends p.tables ∧ Enclosed (g.instrs.map φ) u.code.toList := by
  obtain ⟨q, hadd, rfl⟩ := compile_eq_ok hcompile
  obtain ⟨v, hv, hcompiled⟩ := (addTemplates_adds Tables.sound_initial hadd).exists_template htree
  have hsame : q.templates[name]? = some { v with code := v.code.map id } := by simpa using hv
  have hstitched : ∃ φ, (∀ i, (if options.stitch then q.stitch else q).Stitches i (φ i)) ∧
      (if options.stitch then q.stitch else q).templates[name]? =
        some { v with code := v.code.map φ } := by
    split
    · exact Program.exists_stitches_stitchIn q.templateNames (fun i => .inl rfl) hsame
    · exact ⟨id, fun i => .inl rfl, hsame⟩
  have htables : (if options.stitch then q.stitch else q).tables = q.tables := by
    split
    · exact (q.exists_replacing_stitchIn q.templateNames "").1
    · rfl
  obtain ⟨φ, hφ, hu⟩ := hstitched
  obtain ⟨s, f, s', hnodes, hs, -, hextends, rfl⟩ := hcompiled
  obtain ⟨s₁, g, s₂, hns, hextends', hin⟩ := exists_piece hpiece hnodes hs
  refine ⟨_, φ, s₁, g, s₂, hu, hφ, hns, htables ▸ hextends'.trans hextends, ?_⟩
  rw [Array.toList_map]
  exact hin.map (Program.replacing_of_stitches hφ).distance?

end Compile
end Stencil
