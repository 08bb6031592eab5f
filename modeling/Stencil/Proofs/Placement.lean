import Stencil.Proofs.Nodes
import Stencil.Proofs.Spans

/-!
# Placement

Where the code of a node lies. A template is compiled node by node in the order of the source, and a
visit tells for one of them the state in which it is compiled, the code it is compiled behind and the
offset at which its own code begins. Equal nodes at different places have visits of their own.
-/

namespace Stencil

/-- Whether a node occurs among nodes or, at any depth, inside one of them. -/
inductive Node.Occurs (n : Node) : List Node → Prop where
  | here (rest : List Node) : Occurs n (n :: rest)
  | behind {rest : List Node} (first : Node) (h : Occurs n rest) : Occurs n (first :: rest)
  | inList {ns : List Node} (pos : Pos) (rest : List Node) (h : Occurs n ns) :
      Occurs n (.list ⟨pos, ns⟩ :: rest)
  | inBody {ns : List Node} (kind : BranchKind) (pos bodyPos : Pos) (pipe : Pipeline)
      (orElse : Option (Block Node)) (rest : List Node) (h : Occurs n ns) :
      Occurs n (.branch kind pos pipe ⟨bodyPos, ns⟩ orElse :: rest)
  | inElse {ns : List Node} (kind : BranchKind) (pos elsePos : Pos) (pipe : Pipeline)
      (body : Block Node) (rest : List Node) (h : Occurs n ns) :
      Occurs n (.branch kind pos pipe body (some ⟨elsePos, ns⟩) :: rest)

mutual

/-- A node and all nodes inside it, in the order of the source. -/
def Node.inside : Node → List Node
  | .list ⟨pos, ns⟩ => .list ⟨pos, ns⟩ :: Node.allInside ns
  | .branch kind pos pipe ⟨bodyPos, ns⟩ orElse =>
    .branch kind pos pipe ⟨bodyPos, ns⟩ orElse :: (Node.allInside ns ++ Node.elseInside orElse)
  | n => [n]

/-- Nodes and all nodes inside them, in the order of the source. -/
def Node.allInside : List Node → List Node
  | [] => []
  | n :: rest => n.inside ++ Node.allInside rest

/-- All nodes inside an alternative, in the order of the source. -/
def Node.elseInside : Option (Block Node) → List Node
  | none => []
  | some ⟨_, ns⟩ => Node.allInside ns

end

namespace Compile

/-- A node that is compiled behind some code in some state, and the offset at which its own code begins
in the code around it. -/
structure Visit where
  node : Node
  front : Fragment
  before : State
  start : Nat

/-- The visit after `n` instructions have been put in front of the code. -/
def Visit.shift (n : Nat) (V : Visit) : Visit := { V with start := V.start + n }

end Compile

open Compile

mutual

/-- The visits of a node and of all nodes inside it. -/
def Node.visits (c : Context) (f : Fragment) (s : State) : Node → List Visit
  | .list ⟨pos, ns⟩ => ⟨.list ⟨pos, ns⟩, f, s, f.size⟩ :: Node.allVisits c f s ns
  | .branch kind pos pipe ⟨bodyPos, ns⟩ orElse =>
    ⟨.branch kind pos pipe ⟨bodyPos, ns⟩ orElse, f, s, f.size⟩ ::
      listAfter (pipeline c false pipe) s fun condition s₁ =>
        listAfter (inScope (return (← nodes c .empty ns).mark bodyPos)) s₁ fun taken s₂ =>
          listAfter (alternative c orElse) s₂ fun other s₃ =>
            listAfter (balanced c pos condition) s₃ fun b s₄ =>
              listAfter (internAll c pipe.decl) s₄ fun decl _ =>
                let (held, pop) := b.takePop
                let whole := layout kind held pipe.assign decl ⟨taken, other, pop⟩
                let behind := (popCode pop).length + (other.getD .empty).size
                ((Node.allVisits c .empty { s₁ with declared := [] } ns).map
                    (Visit.shift (held.size + bodyStart kind decl other.isSome)) ++
                  (Node.elseVisits c s₂ orElse).map (Visit.shift (whole.size - behind))).map
                    (Visit.shift f.size)
  | n => [⟨n, f, s, f.size⟩]

/-- The visits of nodes and of all nodes inside them. -/
def Node.allVisits (c : Context) (f : Fragment) (s : State) : List Node → List Visit
  | [] => []
  | n :: rest => n.visits c f s ++ listAfter (node c f n) s fun f s => Node.allVisits c f s rest

/-- The visits of all nodes inside an alternative. -/
def Node.elseVisits (c : Context) (s : State) : Option (Block Node) → List Visit
  | none => []
  | some ⟨_, ns⟩ => Node.allVisits c .empty { s with declared := [] } ns

end

/-- The visits of all nodes of a template, which is compiled after those in front of it. -/
def TemplateSet.visits (set : TemplateSet) (schema : Schema) (registry : Registry)
    (options : CompileOptions) (name : String) : List Visit :=
  match set.get? name, addTemplates set registry options ⟨schema, .initial, .empty, set.root⟩
      (set.toList.takeWhile (·.1 != name)) with
  | some tree, .ok p =>
    Node.allVisits ⟨set, registry, options, schema, name, tree.source⟩ .empty ⟨p.tables, false, []⟩
      tree.root.nodes
  | _, _ => []

/-- Whether a piece of code is at an offset of other code. -/
def CodeAt (n : Nat) (code whole : List Instr) : Prop :=
  ∃ front rest, whole = front ++ code ++ rest ∧ front.length = n

namespace CodeAt

variable {n k : Nat} {code whole other : List Instr}

/-- A piece of a piece is a piece of the whole. -/
theorem trans (h : CodeAt k code whole) (h' : CodeAt n whole other) : CodeAt (k + n) code other := by
  obtain ⟨front, rest, rfl, rfl⟩ := h
  obtain ⟨front', rest', rfl, rfl⟩ := h'
  refine ⟨front' ++ front, rest ++ rest', by simp, ?_⟩
  rw [List.length_append, Nat.add_comm]

/-- Code behind other code is at the length of it. -/
theorem append_right (front code : List Instr) : CodeAt front.length code (front ++ code) :=
  ⟨front, [], by simp, rfl⟩

/-- The instructions of a piece are instructions of the whole. -/
theorem subset (h : CodeAt n code whole) : code ⊆ whole := by
  obtain ⟨front, rest, rfl, -⟩ := h
  exact fun i hi => List.mem_append_left _ (List.mem_append_right _ hi)

/-- A piece of code that has grown. -/
theorem to_prefix (h : CodeAt n code whole) (hwhole : whole <+: other) : CodeAt n code other := by
  obtain ⟨rest, rfl⟩ := hwhole
  obtain ⟨front, rest', rfl, hfront⟩ := h
  exact ⟨front, rest' ++ rest, by simp, hfront⟩

end CodeAt

namespace Compile

variable {c : Context} {s s' : State} {f f' : Fragment}

/-- The code compiled in a scope is the code of the body and code that removes its variables. -/
theorem inScope_eq_ok {x : M Fragment} (h : inScope x s = .ok (f, s')) :
    ∃ g s₁, x { s with declared := [] } = .ok (g, s₁) ∧ s' = { s₁ with declared := s.declared } ∧
      f.instrs = g.instrs ++ unsetCode s₁.declared := by
  have hscope : inScope x s = (x { s with declared := [] }).bind fun r =>
      .ok (unsetAll r.1 r.2.declared, { r.2 with declared := s.declared }) := rfl
  rw [hscope] at h
  cases hx : x { s with declared := [] } with
  | error e =>
    rw [hx] at h
    cases h
  | ok r =>
    rw [hx] at h
    cases h
    exact ⟨r.1, r.2, rfl, rfl, instrs_unsetAll r.1 r.2.declared⟩

/-- The code compiled for nodes in a scope begins with the code of the nodes. -/
theorem scope_nodes_eq_ok {ns : List Node} {pos : Pos}
    (h : inScope (return (← nodes c .empty ns).mark pos) s = .ok (f, s')) :
    ∃ g s₁, nodes c .empty ns { s with declared := [] } = .ok (g, s₁) ∧ s'.tables = s₁.tables ∧
      g.instrs <+: f.instrs := by
  obtain ⟨g, s₁, hx, rfl, hcode⟩ := inScope_eq_ok h
  obtain ⟨g', s₁', hnodes, hmark⟩ := bind_eq_ok.mp hx
  cases hmark
  exact ⟨g', s₁, hnodes, rfl, ⟨_, hcode.symm⟩⟩

/-- Nodes are compiled one after the other. -/
theorem nodes_cons_eq_ok {n : Node} {rest : List Node} (h : nodes c f (n :: rest) s = .ok (f', s'))
    (hwf : Node.allWellFormed (n :: rest)) (hs : s.tables.Sound) (hprint : s.noPrint = false) :
    ∃ g s₁, node c f n s = .ok (g, s₁) ∧ nodes c g rest s₁ = .ok (f', s') ∧ n.wellFormed ∧
      Node.allWellFormed rest ∧ AddsStatement c f s g s₁ ∧ s₁.tables.Sound ∧ s₁.noPrint = false ∧
      AddsStatement c g s₁ f' s' ∧ s₁.tables.Extends s'.tables := by
  obtain ⟨g, s₁, hnode, hrest⟩ := bind_eq_ok.mp h
  simp only [Node.allWellFormed, Bool.and_eq_true] at hwf
  have hadds := (ensures_node n f s hwf.1 hs hprint).of_ok hnode
  obtain ⟨code, names, hcode, hstatement⟩ := hadds
  have hadds' := (ensures_nodes rest g s₁ hwf.2 hstatement.sound hstatement.noPrint).of_ok hrest
  obtain ⟨code', names', hcode', hstatement'⟩ := hadds'
  exact ⟨g, s₁, hnode, hrest, hwf.1, hwf.2, ⟨code, names, hcode, hstatement⟩, hstatement.sound,
    hstatement.noPrint, ⟨code', names', hcode', hstatement'⟩, hstatement'.extends_⟩

/-- The parts of a branch that has been compiled. -/
theorem exists_branchSteps {kind : BranchKind} {pos : Pos} {pipe : Pipeline} {body : Block Node}
    {orElse : Option (Block Node)}
    (h : node c f (.branch kind pos pipe body orElse) s = .ok (f', s'))
    (hwf : (Node.branch kind pos pipe body orElse).wellFormed) (hs : s.tables.Sound)
    (hprint : s.noPrint = false) :
    ∃ B : BranchSteps c kind pipe body orElse s s', B.Sound ∧ f'.instrs = f.instrs ++ B.instrs := by
  simp only [Node.wellFormed, Bool.and_eq_true] at hwf
  obtain ⟨⟨hpipe, hbody⟩, hother⟩ := hwf
  exact (ensures_branch hpipe hs hprint
    (fun s hs hprint => ensures_nodes body.nodes .empty s hbody hs hprint)
    (fun s hs hprint => ensures_alternative orElse s hother hs hprint)).of_ok h

/-! ### The parts of a branch in its code -/

section

variable {kind : BranchKind} {held : Fragment} {assign : Bool} {decl : List Nat} {parts : BranchParts}

/-- Where the body of a branch lies in its layout. -/
theorem codeAt_body (kind : BranchKind) (held : Fragment) (assign : Bool) (decl : List Nat)
    (parts : BranchParts) : CodeAt (held.size + bodyStart kind decl parts.orElse.isSome)
      parts.body.instrs (layout kind held assign decl parts).instrs := by
  obtain ⟨before, between, rest, hlayout, hbefore, -⟩ := layout_eq kind held assign decl parts
  have hinstrs (code : Array Instr) : (Fragment.ofCode code).instrs = code.toList := rfl
  refine ⟨held.instrs ++ before.toList, between.toList ++ (parts.orElse.getD .empty).instrs ++ rest.toList,
    ?_, ?_⟩
  · rw [hlayout]
    simp [hinstrs]
  · rw [List.length_append, ← Fragment.size_eq_length, Array.length_toList, hbefore]

/-- Where the alternative of a branch lies in its layout. -/
theorem codeAt_other (kind : BranchKind) (held : Fragment) (assign : Bool) (decl : List Nat)
    (parts : BranchParts) :
    CodeAt ((layout kind held assign decl parts).size -
        ((popCode parts.pop).length + (parts.orElse.getD .empty).size))
      (parts.orElse.getD .empty).instrs (layout kind held assign decl parts).instrs := by
  obtain ⟨before, between, rest, hlayout, -, hrest⟩ := layout_eq kind held assign decl parts
  have hinstrs (code : Array Instr) : (Fragment.ofCode code).instrs = code.toList := rfl
  refine ⟨held.instrs ++ before.toList ++ parts.body.instrs ++ between.toList, rest.toList, ?_, ?_⟩
  · rw [hlayout]
    simp [hinstrs]
  · rw [hlayout, ← hrest, Fragment.size_eq_length]
    simp [hinstrs, Fragment.size_eq_length]
    omega

end

/-- The code of a branch is the layout of its parts. -/
theorem BranchSteps.Sound.instrs_layout {kind : BranchKind} {pipe : Pipeline} {body : Block Node}
    {orElse : Option (Block Node)} {B : BranchSteps c kind pipe body orElse s s'} (hB : B.Sound) :
    (layout kind B.held pipe.assign B.decl ⟨B.taken, B.other, B.pop⟩).instrs = B.instrs := by
  rw [Compile.instrs_layout, hB.instrs_held]
  rfl

/-! ### Visits in the code of a template -/

/-- What is known about a visit in the code of a well-formed template. -/
structure Visit.Placed (c : Context) (t : Tables) (whole : List Instr) (V : Visit) : Prop where
  wellFormed : V.node.wellFormed
  sound : V.before.tables.Sound
  noPrint : V.before.noPrint = false
  compiled : ∃ result after code, Compile.node c V.front V.node V.before = .ok (result, after) ∧
    after.tables.Extends t ∧ result.instrs = V.front.instrs ++ code ∧ CodeAt V.start code whole

/-- Whether visits are those of nodes, in their order, and the nodes are compiled to pieces of the code. -/
structure Visits (c : Context) (ns : List Node) (visits : List Visit) (t : Tables) (whole : List Instr) :
    Prop where
  nodes : visits.map Visit.node = ns
  placed : ∀ V ∈ visits, V.Placed c t whole

namespace Visits

variable {ns ms : List Node} {visits more : List Visit} {t t' : Tables} {code whole : List Instr} {n : Nat}

/-- No nodes need no visits. -/
theorem nil : Visits c [] [] t whole := ⟨rfl, fun _ h => nomatch h⟩

/-- Visits of two lists of nodes are visits of both of them. -/
theorem append (h : Visits c ns visits t whole) (h' : Visits c ms more t whole) :
    Visits c (ns ++ ms) (visits ++ more) t whole where
  nodes := by rw [List.map_append, h.nodes, h'.nodes]
  placed := List.forall_mem_append.mpr ⟨h.placed, h'.placed⟩

/-- Visits stay in place when code is put behind and the tables grow. -/
theorem mono (h : Visits c ns visits t code) (hcode : code <+: whole) (hextends : t.Extends t') :
    Visits c ns visits t' whole where
  nodes := h.nodes
  placed V hV := by
    obtain ⟨hwf, hs, hprint, result, after, own, hrun, ht, hown, hat⟩ := h.placed V hV
    exact ⟨hwf, hs, hprint, result, after, own, hrun, ht.trans hextends, hown, hat.to_prefix hcode⟩

/-- Visits move with the code of their nodes. -/
theorem shift (h : Visits c ns visits t code) (hcode : CodeAt n code whole) :
    Visits c ns (visits.map (Visit.shift n)) t whole where
  nodes := by
    rw [List.map_map]
    exact h.nodes
  placed V hV := by
    obtain ⟨W, hW, rfl⟩ := List.mem_map.mp hV
    obtain ⟨hwf, hs, hprint, result, after, own, hrun, ht, hown, hat⟩ := h.placed W hW
    exact ⟨hwf, hs, hprint, result, after, own, hrun, ht, hown, hat.trans hcode⟩

end Visits

/-- A node is compiled right behind the code in front of it. -/
theorem visits_self {n : Node} (hrun : node c f n s = .ok (f', s')) (hwf : n.wellFormed)
    (hs : s.tables.Sound) (hprint : s.noPrint = false) :
    Visits c [n] [⟨n, f, s, f.size⟩] s'.tables f'.instrs := by
  obtain ⟨code, names, hcode, -⟩ := (ensures_node n f s hwf hs hprint).of_ok hrun
  refine ⟨rfl, fun V hV => ?_⟩
  obtain rfl := List.mem_singleton.mp hV
  refine ⟨hwf, hs, hprint, f', s', code, hrun, .refl _, hcode, ?_⟩
  rw [hcode, Fragment.size_eq_length]
  exact .append_right f.instrs code

/-- The instructions of an alternative, none if there is none. -/
theorem getD_map_instrs (other : Option Fragment) :
    (other.map Fragment.instrs).getD [] = (other.getD .empty).instrs := by
  cases other <;> rfl

/-- The visits inside a branch are those in its body and in its alternative, each at the place of that
part in the code of the branch. -/
theorem visits_branch {kind : BranchKind} {pos bodyPos : Pos} {pipe : Pipeline}
    {ns : List Node} {orElse : Option (Block Node)}
    {B : BranchSteps c kind pipe ⟨bodyPos, ns⟩ orElse s s'} (hB : B.Sound)
    (hbody : Visits c (Node.allInside ns)
      (Node.allVisits c .empty { B.afterCondition with declared := [] } ns) s'.tables B.taken.instrs)
    (hother : Visits c (Node.elseInside orElse) (Node.elseVisits c B.afterTaken orElse) s'.tables
      (B.other.getD .empty).instrs)
    (hcode : f'.instrs = f.instrs ++ B.instrs) :
    Visits c (Node.allInside ns ++ Node.elseInside orElse)
      ((Node.branch kind pos pipe ⟨bodyPos, ns⟩ orElse).visits c f s).tail s'.tables f'.instrs := by
  have hbalanced : balanced c pos B.condition B.afterOther = .ok (B.balanced, B.afterOther) := by
    rw [balanced, B.balance_condition]
    rfl
  have hbranch : CodeAt f.size B.instrs f'.instrs := by
    rw [hcode, Fragment.size_eq_length]
    exact .append_right f.instrs B.instrs
  have htaken := codeAt_body kind B.held pipe.assign B.decl ⟨B.taken, B.other, B.pop⟩
  have helse := codeAt_other kind B.held pipe.assign B.decl ⟨B.taken, B.other, B.pop⟩
  rw [hB.instrs_layout] at htaken helse
  simp only [Node.visits, List.tail_cons, listAfter_of_ok B.compiled_condition,
    listAfter_of_ok B.compiled_taken, listAfter_of_ok B.compiled_other, listAfter_of_ok hbalanced,
    listAfter_of_ok B.compiled_decl]
  exact ((hbody.shift htaken).append (hother.shift helse)).shift hbranch

mutual

/-- The visits of a node are those of the node and of all nodes inside it. -/
theorem visits_node : ∀ (n : Node) (f : Fragment) (s : State) (f' : Fragment) (s' : State),
    node c f n s = .ok (f', s') → n.wellFormed → s.tables.Sound → s.noPrint = false →
      Visits c n.inside (n.visits c f s) s'.tables f'.instrs
  | .list ⟨pos, ns⟩, f, s, f', s', hrun, hwf, hs, hprint => by
    obtain ⟨g, s₁, hns, hmark⟩ := bind_eq_ok.mp hrun
    cases hmark
    exact (visits_self hrun hwf hs hprint).append (visits_nodes ns f s g s' hns hwf hs hprint)
  | .branch kind pos pipe ⟨bodyPos, ns⟩ orElse, f, s, f', s', hrun, hwf, hs, hprint => by
    obtain ⟨B, hB, hcode⟩ := exists_branchSteps hrun hwf hs hprint
    have hself := visits_self hrun hwf hs hprint
    simp only [Node.wellFormed, Bool.and_eq_true] at hwf
    obtain ⟨g, s₁, hns, htables, hbegins⟩ := scope_nodes_eq_ok B.compiled_taken
    have hbody := (visits_nodes ns .empty _ g s₁ hns hwf.1.2 (hB.emits.sound hs) hB.noPrint).mono hbegins
      (htables ▸ hB.extends_taken)
    have hother := (visits_alternative orElse _ _ _ B.compiled_other hwf.2 hB.statement_taken.sound
      hB.statement_taken.noPrint).mono List.prefix_rfl hB.grows.extends_
    exact hself.append (visits_branch hB hbody hother hcode)
  | .text .., f, s, f', s', hrun, hwf, hs, hprint => visits_self hrun hwf hs hprint
  | .action .., f, s, f', s', hrun, hwf, hs, hprint => visits_self hrun hwf hs hprint
  | .comment .., f, s, f', s', hrun, hwf, hs, hprint => visits_self hrun hwf hs hprint
  | .template .., f, s, f', s', hrun, hwf, hs, hprint => visits_self hrun hwf hs hprint
  | .breakLoop _, f, s, f', s', hrun, hwf, hs, hprint => visits_self hrun hwf hs hprint
  | .continueLoop _, f, s, f', s', hrun, hwf, hs, hprint => visits_self hrun hwf hs hprint

/-- The visits of nodes are those of the nodes and of all nodes inside them. -/
theorem visits_nodes : ∀ (ns : List Node) (f : Fragment) (s : State) (f' : Fragment) (s' : State),
    nodes c f ns s = .ok (f', s') → Node.allWellFormed ns → s.tables.Sound → s.noPrint = false →
      Visits c (Node.allInside ns) (Node.allVisits c f s ns) s'.tables f'.instrs
  | [], f, s, f', s', hrun, hwf, hs, hprint => .nil
  | n :: rest, f, s, f', s', hrun, hwf, hs, hprint => by
    obtain ⟨g, s₁, hnode, hrest, hn, hwf', -, hs₁, hprint₁, ⟨code, names, hcode, -⟩, hextends⟩ :=
      nodes_cons_eq_ok hrun hwf hs hprint
    have hfirst := (visits_node n f s g s₁ hnode hn hs hprint).mono ⟨code, hcode.symm⟩ hextends
    simp only [Node.allVisits, listAfter_of_ok hnode]
    exact hfirst.append (visits_nodes rest g s₁ f' s' hrest hwf' hs₁ hprint₁)

/-- The visits inside an alternative are those of all nodes inside it. -/
theorem visits_alternative : ∀ (orElse : Option (Block Node)) (s : State) (other : Option Fragment)
    (s' : State), alternative c orElse s = .ok (other, s') → Node.elseWellFormed orElse →
      s.tables.Sound → s.noPrint = false →
      Visits c (Node.elseInside orElse) (Node.elseVisits c s orElse) s'.tables (other.getD .empty).instrs
  | none, s, other, s', hrun, hwf, hs, hprint => .nil
  | some ⟨pos, ns⟩, s, other, s', hrun, hwf, hs, hprint => by
    obtain ⟨taken, s₁, hscope, hother⟩ := bind_eq_ok.mp hrun
    obtain ⟨g, s₂, hns, htables, hbegins⟩ := scope_nodes_eq_ok hscope
    obtain ⟨rfl, rfl⟩ := Prod.mk.inj (Except.ok.inj hother)
    have hinstrs : ((if taken.isEmpty then none else some taken).getD .empty).instrs = taken.instrs := by
      rw [← getD_map_instrs, instrs_other]
    rw [hinstrs]
    exact (visits_nodes ns .empty _ g s₂ hns hwf hs hprint).mono hbegins (htables ▸ .refl _)

end

end Compile
end Stencil
