import Stencil.Proofs.AlikeStatements
import Stencil.Proofs.Positions
import Stencil.Proofs.Resolution

/-!
# Action sites

Where the code of an action lies in a compiled program, and from which state of compilation it has been
compiled. The functions in the tables are then those of the registry. Whether the action would print
depends on the asset hooks in front of it: one that is not in an action itself stays pending until the
next action has been compiled. In a set without asset hooks every action would print.
-/

namespace Stencil

mutual

/-- The names of functions in a node and in the nodes in it. -/
def Node.names : Node → List String
  | .list ⟨_, nodes⟩ => Node.allNames nodes
  | .action _ pipe => pipe.names
  | .branch _ _ pipe ⟨_, nodes⟩ orElse => pipe.names ++ Node.allNames nodes ++ Node.elseNames orElse
  | .template _ _ (some pipe) => pipe.names
  | _ => []

/-- The names of functions in nodes. -/
def Node.allNames : List Node → List String
  | [] => []
  | node :: rest => node.names ++ Node.allNames rest

/-- The names of functions in an alternative. -/
def Node.elseNames : Option (Block Node) → List String
  | none => []
  | some ⟨_, nodes⟩ => Node.allNames nodes

end

open Compile (NoHooks anyHook)

mutual

/-- Whether an asset hook is pending behind a node: one that keeps the next action from printing, as no
action has come after it. It may already have been pending in front of the node. -/
def Node.pending (before : Bool) : Node → Bool
  | .list ⟨_, nodes⟩ => Node.allPending before nodes
  | .action _ _ => false
  | .branch _ _ pipe ⟨_, nodes⟩ orElse =>
    Node.elsePending (Node.allPending (before || anyHook pipe.names) nodes) orElse
  | .template _ _ (some pipe) => before || anyHook pipe.names
  | _ => before

/-- Whether an asset hook is pending behind nodes. -/
def Node.allPending (before : Bool) : List Node → Bool
  | [] => before
  | node :: rest => Node.allPending (node.pending before) rest

/-- Whether an asset hook is pending behind an alternative. -/
def Node.elsePending (before : Bool) : Option (Block Node) → Bool
  | none => before
  | some ⟨_, nodes⟩ => Node.allPending before nodes

end

/-- Whether a node occurs among nodes or, at any depth, inside one of them, where an asset hook is pending
in front of it as told. There may already be one in front of all of them. -/
inductive Node.OccursWith (n : Node) (pending : Bool) : (before : Bool) → List Node → Prop where
  | here (rest : List Node) : OccursWith n pending pending (n :: rest)
  | behind {before : Bool} {rest : List Node} (first : Node)
      (h : OccursWith n pending (first.pending before) rest) : OccursWith n pending before (first :: rest)
  | inList {before : Bool} {ns : List Node} (pos : Pos) (rest : List Node)
      (h : OccursWith n pending before ns) : OccursWith n pending before (.list ⟨pos, ns⟩ :: rest)
  | inBody {before : Bool} {ns : List Node} (kind : BranchKind) (pos bodyPos : Pos) (pipe : Pipeline)
      (orElse : Option (Block Node)) (rest : List Node)
      (h : OccursWith n pending (before || anyHook pipe.names) ns) :
      OccursWith n pending before (.branch kind pos pipe ⟨bodyPos, ns⟩ orElse :: rest)
  | inElse {before : Bool} {ns : List Node} (kind : BranchKind) (pos elsePos : Pos) (pipe : Pipeline)
      (body : Block Node) (rest : List Node)
      (h : OccursWith n pending (Node.allPending (before || anyHook pipe.names) body.nodes) ns) :
      OccursWith n pending before (.branch kind pos pipe body (some ⟨elsePos, ns⟩) :: rest)

/-- An action in a list is in its first node, or behind what that leaves pending. -/
theorem Node.OccursWith.head_or_tail {m n : Node} {rest : List Node} {pending before : Bool}
    (h : m.OccursWith pending before (n :: rest)) :
    m.OccursWith pending before [n] ∨ m.OccursWith pending (n.pending before) rest := by
  cases h with
  | here => exact .inl (.here [])
  | behind _ h => exact .inr h
  | inList pos _ h => exact .inl (.inList pos [] h)
  | inBody kind pos bodyPos pipe orElse _ h => exact .inl (.inBody kind pos bodyPos pipe orElse [] h)
  | inElse kind pos elsePos pipe body _ h => exact .inl (.inElse kind pos elsePos pipe body [] h)

/-- The names in a node are among those of the nodes it occurs in. -/
theorem Node.Occurs.names {n : Node} {ns : List Node} (h : n.Occurs ns) :
    ∀ name ∈ n.names, name ∈ Node.allNames ns := by
  intro name hname
  induction h with
  | here rest => exact List.mem_append_left _ hname
  | behind m _ ih => exact List.mem_append_right _ ih
  | inList pos rest _ ih => exact List.mem_append_left _ ih
  | inBody kind pos bodyPos pipe orElse rest _ ih =>
    exact List.mem_append_left _ (List.mem_append_left _ (List.mem_append_right _ ih))
  | inElse kind pos elsePos pipe body rest _ ih =>
    exact List.mem_append_left _ (List.mem_append_right _ ih)

mutual

/-- Nodes that name no asset hook leave none behind. -/
theorem Node.pending_of_noHooks : ∀ n : Node, NoHooks n.names → n.pending false = false
  | .list ⟨_, ns⟩, h => Node.allPending_of_noHooks ns h
  | .text .., _ | .action .., _ | .comment .., _ | .breakLoop _, _ | .continueLoop _, _
  | .template _ _ none, _ => rfl
  | .template _ _ (some _), h => h.anyHook_eq_false
  | .branch _ _ pipe ⟨_, ns⟩ orElse, h => by
    obtain ⟨hfront, helse⟩ := List.forall_mem_append.mp h
    obtain ⟨hpipe, hbody⟩ := List.forall_mem_append.mp hfront
    have hnone : (false || anyHook pipe.names) = false := NoHooks.anyHook_eq_false hpipe
    rw [Node.pending, hnone, Node.allPending_of_noHooks ns hbody]
    exact Node.elsePending_of_noHooks orElse helse

/-- Nodes without asset hooks leave none pending. -/
theorem Node.allPending_of_noHooks : ∀ ns : List Node, NoHooks (Node.allNames ns) →
    Node.allPending false ns = false
  | [], _ => rfl
  | n :: rest, h => by
    obtain ⟨hn, hrest⟩ := List.forall_mem_append.mp h
    rw [Node.allPending, Node.pending_of_noHooks n hn]
    exact Node.allPending_of_noHooks rest hrest

/-- Nor does an alternative without asset hooks. -/
theorem Node.elsePending_of_noHooks : ∀ orElse : Option (Block Node), NoHooks (Node.elseNames orElse) →
    Node.elsePending false orElse = false
  | none, _ => rfl
  | some ⟨_, ns⟩, h => Node.allPending_of_noHooks ns h

end

/-- Where no asset hook is named none is pending. -/
theorem Node.Occurs.occursWith {n : Node} {ns : List Node} (h : n.Occurs ns)
    (hnames : NoHooks (Node.allNames ns)) : n.OccursWith false false ns := by
  induction h with
  | here rest => exact .here rest
  | behind first _ ih =>
    obtain ⟨hfirst, hrest⟩ := List.forall_mem_append.mp hnames
    exact .behind first ((Node.pending_of_noHooks first hfirst).symm ▸ ih hrest)
  | inList pos rest _ ih => exact .inList pos rest (ih (List.forall_mem_append.mp hnames).1)
  | inBody kind pos bodyPos pipe orElse rest _ ih =>
    obtain ⟨hfront, -⟩ := List.forall_mem_append.mp (List.forall_mem_append.mp hnames).1
    obtain ⟨hpipe, hbody⟩ := List.forall_mem_append.mp hfront
    exact .inBody kind pos bodyPos pipe orElse rest ((NoHooks.anyHook_eq_false hpipe).symm ▸ ih hbody)
  | inElse kind pos elsePos pipe body rest _ ih =>
    obtain ⟨hfront, helse⟩ := List.forall_mem_append.mp (List.forall_mem_append.mp hnames).1
    obtain ⟨hpipe, hbody⟩ := List.forall_mem_append.mp hfront
    refine .inElse kind pos elsePos pipe body rest ?_
    have hnone : Node.allPending (false || anyHook pipe.names) body.nodes = false := by
      rw [NoHooks.anyHook_eq_false hpipe]
      exact Node.allPending_of_noHooks body.nodes hbody
    rw [hnone]
    exact ih helse

namespace Compile

/-- An action that has been compiled, and its code at a place that can only be entered at its start. -/
structure ActionSite (c : Context) (pos : Pos) (pipe : Pipeline) (t : Tables) (whole : List Instr) where
  front : Fragment
  before : State
  result : Fragment
  after : State
  code : List Instr
  ready : before.Ready c
  compiled : action c pos front pipe before = .ok (result, after)
  instrs_result : result.instrs = front.instrs ++ code
  extends_ : after.tables.Extends t
  isLocal : ∀ i ∈ code, i.isLocal
  enclosed : Enclosed code whole

/-- An action that has been compiled with an asset hook pending in front of it or not, and its code at a
place that can only be entered at its start. -/
structure HookSite (c : Context) (pending : Bool) (pos : Pos) (pipe : Pipeline) (t : Tables)
    (whole : List Instr) where
  front : Fragment
  before : State
  result : Fragment
  after : State
  code : List Instr
  linked : before.Linked c
  noPrint : before.noPrint = pending
  compiled : action c pos front pipe before = .ok (result, after)
  instrs_result : result.instrs = front.instrs ++ code
  extends_ : after.tables.Extends t
  isLocal : ∀ i ∈ code, i.isLocal
  enclosed : Enclosed code whole

variable {c : Context} {pos : Pos} {s s' s₁ s₂ s₃ : State} {f f' g : Fragment} {n : Node} {ns : List Node}
  {t t' : Tables} {code rest whole whole' front back : List Instr} {pipe : Pipeline} {pending : Bool}

/-- The site of an action in other code. -/
def HookSite.mono (K : HookSite c pending pos pipe t whole) (hwhole : Enclosed whole whole')
    (hextends : t.Extends t') : HookSite c pending pos pipe t' whole' :=
  { K with extends_ := K.extends_.trans hextends, enclosed := K.enclosed.trans hwhole }

/-- Where no asset hook is pending an action would print. -/
def HookSite.actionSite (K : HookSite c false pos pipe t whole) : ActionSite c pos pipe t whole :=
  { K with ready := ⟨K.linked.keyed, K.linked.registered, K.noPrint⟩ }

/-- What compiling nodes does to the state, and the sites of their actions. -/
structure Hosts (c : Context) (ns : List Node) (s s' : State) (code : List Instr) : Prop where
  closed : Closed code
  passes : Passes c (Node.allPending · ns) s s'
  sites : s.Linked c → ∀ pending pos pipe, (Node.action pos pipe).OccursWith pending s.noPrint ns →
    Nonempty (HookSite c pending pos pipe s'.tables code)

/-- Whether code has been added to a fragment that is the host of the actions of nodes. -/
def AddsHost (c : Context) (ns : List Node) (f : Fragment) (s : State) (f' : Fragment) (s' : State) :
    Prop :=
  ∃ code, f'.instrs = f.instrs ++ code ∧ Hosts c ns s s' code

/-- No code is host to no actions. -/
theorem Hosts.nil : Hosts c [] s s [] where
  closed := closed_nil
  passes := .refl c s
  sites _ _ _ _ h := nomatch h

/-- The hosts of a node and of the nodes behind it are together a host of all of them. -/
theorem Hosts.cons (h : Hosts c [n] s s₁ code) (h' : Hosts c ns s₁ s' rest) :
    Hosts c (n :: ns) s s' (code ++ rest) where
  closed := h.closed.append h'.closed
  passes := h.passes.trans h'.passes
  sites hs pending pos pipe hoccurs := by
    rcases hoccurs.head_or_tail with hhead | htail
    · obtain ⟨K⟩ := h.sites hs pending pos pipe hhead
      exact ⟨K.mono (.append_left code h'.closed) h'.passes.extends_⟩
    · have hprint : s₁.noPrint = n.pending s.noPrint := h.passes.noPrint
      obtain ⟨K⟩ := h'.sites (h.passes.linked hs) pending pos pipe (hprint ▸ htail)
      exact ⟨K.mono (.append_right h.closed rest) (.refl _)⟩

/-- The code of a node in which no action occurs. -/
theorem addsHost_of_none (hrun : node c f n s = .ok (f', s')) (hpasses : Passes c (Node.pending · n) s s')
    (hnone : ∀ pending before pos pipe, ¬(Node.action pos pipe).OccursWith pending before [n]) :
    AddsHost c [n] f s f' s' := by
  obtain ⟨code, names, hcode, hwrites⟩ := yields_node n f s f' s' hrun
  exact ⟨code, hcode, hwrites.closed, hpasses, fun _ pending pos pipe h => (hnone _ _ pos pipe h).elim⟩

/-! ### Nodes without bodies -/

/-- Text hosts no action and leaves pending what was pending. -/
theorem yields_passes_text (str : String) :
    Yields (text c pos f str) s fun _ s' => Passes c id s s' := by
  unfold text
  simp only
  split
  · exact yields_pure (.refl c s)
  · exact (yields_passes_pushBytes f _).mono fun _ _ h => h.2

/-- Balancing hosts no action and leaves pending what was pending. -/
theorem yields_passes_balanced : Yields (balanced c pos g) s fun _ s' => Passes c id s s' := by
  unfold balanced
  split
  · exact yields_pure (.refl c s)
  · exact yields_fail

/-- The code behind a template name hosts no action and leaves pending what was pending. -/
theorem yields_passes_templateBehind (target : String) :
    Yields (templateBehind c pos f target g) s fun _ s' => Passes c id s s' := by
  refine .bind yields_passes_balanced fun b s₁ hb => ?_
  have hnamespace : Yields (callNamespace c pos target) s₁ fun _ s' => Passes c id s₁ s' := by
    refine .bind (yields_linked_intern _) fun ns s₂ hns => ?_
    split
    · exact yields_pure hns.1
    · exact yields_fail
  refine .bind hnamespace fun ns s₂ hns => ?_
  exact .bind (yields_linked_intern target) fun index s₃ hindex =>
    yields_pure ((hb.trans hns).trans hindex.1)

/-- A template call hosts no action, but a hook in its pipeline is pending behind it. -/
theorem yields_passes_templateCall (name : String) (pipe : Option Pipeline) :
    Yields (templateCall c pos f name pipe) s fun _ s' =>
      Passes c (Node.pending · (.template pos name pipe)) s s' := by
  refine .templateCall fun _ => ?_
  cases pipe with
  | some pipe =>
    exact (yields_hooked_pipeline true pipe s).mono fun g s₁ hg =>
      (yields_passes_templateBehind name).mono fun _ _ hcall => hg.passes.trans hcall
  | none =>
    exact (yields_hooked_pushValue .empty .nil).mono fun g s₁ hg =>
      (yields_passes_templateBehind name).mono fun _ _ hcall => hg.unhooked.trans hcall

/-- The parts that an action is compiled from. -/
theorem action_eq_ok (h : action c pos f pipe s = .ok (f', s')) :
    ∃ g s₁ s₂, pipeline c true pipe s = .ok (g, s₁) ∧ s₂ = { s₁ with noPrint := false } ∧
      settle c pos f (if pipe.decl.isEmpty && !s₁.noPrint then g.push .print else g) s₂.tables s₂ =
        .ok (f', s') := by
  rw [action_eq] at h
  obtain ⟨g, s₁, hrun, hrest⟩ := bind_eq_ok.mp h
  exact ⟨g, s₁, _, hrun, rfl, hrest⟩

/-- Straight code stays straight when its result is printed. -/
theorem straight_printing (h : Straight g.instrs) (prints : Bool) :
    Straight (if prints then g.push .print else g).instrs := by
  split
  · rw [Fragment.instrs_push]
    exact h.append (straight_singleton rfl)
  · exact h

/-- The site of an action in its own code. No asset hook is pending behind it. -/
theorem yields_host_action : Yields (action c pos f pipe) s (AddsHost c [.action pos pipe] f s) := by
  intro f' s' hrun
  obtain ⟨g, s₁, s₂, hpipe, hs₂, hsettle⟩ := action_eq_ok hrun
  have hpasses := (yields_hooked_pipeline true pipe s g s₁ hpipe).passes
  have hstraight := (yields_emitsBindings pipe g s₁ hpipe).1.straight
  obtain ⟨code, pop, hcode, hsettles⟩ := settle_eq_ok (straight_printing hstraight _) hsettle
  refine ⟨code, hcode, hsettles.closed, ⟨?_, fun hs => ?_, ?_⟩, ?_⟩
  · rw [hs₂] at hsettles
    exact hpasses.extends_.trans hsettles.extends_
  · rw [hs₂] at hsettles
    exact ⟨hs.keyed, (hpasses.linked hs).registered.of_alike hsettles.alike.tables⟩
  · rw [← hsettles.alike.noPrint, hs₂]
    rfl
  · intro hs pending pos' pipe' hoccurs
    cases hoccurs with
    | here =>
      exact ⟨⟨f, s, f', s', code, hs, rfl, hrun, hcode, .refl _, hsettles.isLocal, .refl code⟩⟩
    | behind _ h => nomatch h

/-! ### Branches -/

/-- A scope of its own hosts the actions of its nodes. -/
theorem yields_host_inScope {x : M Fragment}
    (h : Yields x { s with declared := [] } (AddsHost c ns .empty { s with declared := [] })) :
    Yields (inScope x) s fun f s' => Hosts c ns s s' f.instrs := by
  intro f s' hrun
  obtain ⟨g, s₁, hx, rfl, hcode⟩ := inScope_eq_ok hrun
  obtain ⟨code, hadds, hosts⟩ := h g s₁ hx
  have hadds : g.instrs = code := hadds
  have hstart {s : State} (hs : s.Linked c) : State.Linked c { s with declared := [] } :=
    ⟨hs.keyed, hs.registered⟩
  rw [hcode, hadds]
  refine ⟨hosts.closed.append (closed_unsetCode _), ?_, fun hs pending pos pipe hoccurs => ?_⟩
  · exact ⟨hosts.passes.extends_, fun hs => hosts.passes.declared.linked (hstart hs),
      hosts.passes.noPrint⟩
  · obtain ⟨K⟩ := hosts.sites (hstart hs) pending pos pipe hoccurs
    exact ⟨K.mono (.append_left code (closed_unsetCode _)) (.refl _)⟩

/-- The nodes of an alternative. -/
def otherNodes : Option (Block Node) → List Node
  | none => []
  | some b => b.nodes

/-- What is pending behind an alternative is what is pending behind its nodes. -/
theorem elsePending_eq (before : Bool) (orElse : Option (Block Node)) :
    Node.elsePending before orElse = Node.allPending before (otherNodes orElse) := by
  cases orElse <;> rfl

/-- The bodies of a branch can only be entered at their starts, and so can the code of an action in
them. -/
theorem Hosts.sites_branch {kind : BranchKind} (assign : Bool) (decl : List Nat) (pop : Option Nat)
    {taken : List Instr} {other : Option (List Instr)} {body : Block Node} {orElse : Option (Block Node)}
    {before : Bool} (htaken : Hosts c body.nodes s₁ s₂ taken)
    (hother : Hosts c (otherNodes orElse) s₂ s₃ (other.getD [])) (hgrows : s₃.tables.Extends t)
    (hs : s₁.Linked c) (hprint : s₁.noPrint = (before || anyHook pipe.names)) {pos' : Pos}
    {pipe' : Pipeline}
    (hoccurs : (Node.action pos' pipe').OccursWith pending before [.branch kind pos pipe body orElse]) :
    Nonempty (HookSite c pending pos' pipe' t (branchCode kind assign decl pop taken other)) := by
  cases hoccurs with
  | behind _ h => nomatch h
  | inBody _ _ _ _ _ _ h =>
    obtain ⟨K⟩ := htaken.sites hs pending pos' pipe' (hprint ▸ h)
    exact ⟨K.mono (body_enclosed_branchCode kind assign decl pop hother.closed)
      (hother.passes.extends_.trans hgrows)⟩
  | inElse _ _ _ _ _ _ h =>
    have hbehind : s₂.noPrint = Node.allPending (before || anyHook pipe.names) body.nodes := by
      rw [htaken.passes.noPrint, hprint]
    obtain ⟨K⟩ := hother.sites (htaken.passes.linked hs) pending pos' pipe' (hbehind ▸ h)
    exact ⟨K.mono (other_enclosed_branchCode kind assign decl pop htaken.closed) hgrows⟩

/-- Interning names hosts no action and leaves pending what was pending. -/
theorem yields_passes_internAll (decl : List Variable) :
    Yields (internAll c decl) s fun _ s' => Passes c id s s' := by
  induction decl generalizing s with
  | nil => exact yields_pure (.refl c s)
  | cons v rest ih =>
    refine .bind (yields_linked_intern v.name) fun name s₁ hname => ?_
    exact .bind ih fun names s₂ hrest => yields_pure (hname.1.trans hrest)

/-- The sites of the actions in the bodies of a branch. -/
theorem yields_host_branch {kind : BranchKind} {body : Block Node} {orElse : Option (Block Node)}
    (hbody : ∀ s, Yields (nodes c .empty body.nodes) s (AddsHost c body.nodes .empty s))
    (hother : ∀ s, Yields (alternative c orElse) s fun e s' =>
      Hosts c (otherNodes orElse) s s' ((e.map Fragment.instrs).getD [])) :
    Yields (node c f (.branch kind pos pipe body orElse)) s
      (AddsHost c [.branch kind pos pipe body orElse] f s) := by
  intro g s₄ hrun
  obtain ⟨B, hcode⟩ := yields_branchSteps g s₄ hrun
  have hpasses := (yields_hooked_pipeline false pipe s _ _ B.compiled_condition).passes
  have hbody : Yields (inScope (return (← nodes c .empty body.nodes).mark body.pos)) B.afterCondition
      fun g s₂ => Hosts c body.nodes B.afterCondition s₂ g.instrs :=
    yields_host_inScope (.bind (hbody _) fun _ _ hadds => yields_pure hadds)
  have htaken := hbody _ _ B.compiled_taken
  have hother := hother _ _ _ B.compiled_other
  have hdecl := yields_passes_internAll pipe.decl _ _ B.compiled_decl
  have hbodies : Passes c (Node.allPending · [.branch kind pos pipe body orElse]) s s₄ := by
    have hall := ((hpasses.trans htaken.passes).trans hother.passes).trans hdecl
    refine ⟨hall.extends_, hall.linked, ?_⟩
    rw [hall.noPrint]
    exact (elsePending_eq _ orElse).symm
  refine ⟨_, hcode,
    B.closed_header.append (closed_branchCode kind _ B.decl B.pop htaken.closed hother.closed), hbodies,
    fun hs pending pos' pipe' hoccurs => ?_⟩
  obtain ⟨K⟩ := htaken.sites_branch pipe.assign B.decl B.pop hother hdecl.extends_
    (hpasses.linked hs) hpasses.noPrint hoccurs
  exact ⟨K.mono (.append_right B.closed_header _) (.refl _)⟩

mutual

/-- The actions in a node have sites in the code of the node. -/
theorem yields_host_node : ∀ (n : Node) (f : Fragment) (s : State),
    Yields (node c f n) s (AddsHost c [n] f s)
  | .list ⟨pos, ns⟩, f, s =>
    .bind (yields_host_nodes ns f s) fun g s' hadds => yields_pure (by
      obtain ⟨code, hcode, hosts⟩ := hadds
      refine ⟨code, hcode, hosts.closed, hosts.passes, fun hs pending pos' pipe hoccurs => ?_⟩
      cases hoccurs with
      | behind _ h => nomatch h
      | inList _ _ h => exact hosts.sites hs pending pos' pipe h)
  | .text pos str, f, s => by
    intro f' s' hrun
    have hpasses : Yields (node c f (.text pos str)) s fun _ s' => Passes c id s s' :=
      .bind (yields_passes_text str) fun _ _ h => yields_pure h
    exact addsHost_of_none hrun (hpasses f' s' hrun) fun _ _ _ _ h => by
      cases h with
      | behind _ h => nomatch h
  | .action pos pipe, f, s => .bind yields_host_action fun _ _ hadds => yields_pure hadds
  | .comment pos str, f, s => by
    intro f' s' hrun
    cases hrun
    exact addsHost_of_none rfl (.refl c s) fun _ _ _ _ h => by
      cases h with
      | behind _ h => nomatch h
  | .branch kind pos pipe ⟨bodyPos, ns⟩ orElse, f, s =>
    yields_host_branch (fun s => yields_host_nodes ns .empty s) fun s => yields_host_alternative orElse s
  | .template pos name pipe, f, s => by
    intro f' s' hrun
    have hpasses : Yields (node c f (.template pos name pipe)) s fun _ s' =>
        Passes c (Node.pending · (.template pos name pipe)) s s' :=
      .bind (yields_passes_templateCall name pipe) fun _ _ h => yields_pure h
    exact addsHost_of_none hrun (hpasses f' s' hrun) fun _ _ _ _ h => by
      cases h with
      | behind _ h => nomatch h
  | .breakLoop pos, f, s | .continueLoop pos, f, s => yields_fail

/-- The code of nodes is host to the actions in them. -/
theorem yields_host_nodes : ∀ (ns : List Node) (f : Fragment) (s : State),
    Yields (nodes c f ns) s (AddsHost c ns f s)
  | [], f, s => yields_pure ⟨[], by simp, .nil⟩
  | n :: rest, f, s => by
    refine .bind (yields_host_node n f s) fun g s₁ hhead => ?_
    refine (yields_host_nodes rest g s₁).mono fun g' s₂ htail => ?_
    obtain ⟨code, hcode, hosts⟩ := hhead
    obtain ⟨code', hcode', hosts'⟩ := htail
    exact ⟨code ++ code', by rw [hcode', hcode, List.append_assoc], hosts.cons hosts'⟩

/-- The code of an alternative is host to the actions in it. -/
theorem yields_host_alternative : ∀ (orElse : Option (Block Node)) (s : State),
    Yields (alternative c orElse) s fun e s' =>
      Hosts c (otherNodes orElse) s s' ((e.map Fragment.instrs).getD [])
  | none, s => yields_pure .nil
  | some ⟨pos, ns⟩, s => by
    have hscope : Yields (inScope (return (← nodes c .empty ns).mark pos)) s fun g s' =>
        Hosts c ns s s' g.instrs :=
      yields_host_inScope (.bind (yields_host_nodes ns .empty _) fun _ _ hadds => yields_pure hadds)
    exact .bind hscope fun g s' hg => yields_pure (by rwa [instrs_other])

end

/-! ### Templates -/

variable {set : TemplateSet} {registry : Registry} {options : CompileOptions} {schema : Schema}
  {p p' : Program} {name : String} {tree : Tree} {u : CompiledTemplate}

/-- Whether the actions of a tree have sites in the code of a template. No asset hook is pending at its
start. -/
def Sited (c : Context) (tree : Tree) (t : Tables) (u : CompiledTemplate) : Prop :=
  ∀ pending pos pipe, (Node.action pos pipe).OccursWith pending false tree.root.nodes →
    Nonempty (HookSite c pending pos pipe t u.code.toList)

/-- A template keeps its sites when tables grow. -/
theorem Sited.mono (h : Sited c tree t u) (hextends : t.Extends t') : Sited c tree t' u := by
  intro pending pos pipe hoccurs
  obtain ⟨K⟩ := h pending pos pipe hoccurs
  exact ⟨K.mono (.refl _) hextends⟩

/-- Calls of templates may be replaced around the code of an action. -/
theorem Sited.map {φ : Instr → Instr} (h : Sited c tree t u) (hφ : Instr.Replacing φ) :
    Sited c tree t { u with code := u.code.map φ } := by
  intro pending pos pipe hoccurs
  obtain ⟨K⟩ := h pending pos pipe hoccurs
  have hfixes (i : Instr) (hi : i ∈ K.code) : φ i = id i :=
    hφ.fixes (Instr.ne_template_of_isLocal (K.isLocal i hi))
  have hsame : K.code.map φ = K.code := (List.map_congr_left hfixes).trans (List.map_id _)
  have henclosed := K.enclosed.map hφ.distance?
  rw [hsame, ← Array.toList_map] at henclosed
  exact ⟨{ K with enclosed := henclosed }⟩

/-- A compiled template has a site for each of its actions. -/
theorem yields_sited_template (hkeyed : c.registry.IsKeyed) (ht : t.Registered c.registry) :
    Yields (template c tree) ⟨t, false, []⟩ fun u s' =>
      s'.tables.Registered c.registry ∧ Sited c tree s'.tables u := by
  refine yields_modify_bind (.bind (yields_host_nodes tree.root.nodes .empty _) ?_)
  intro g s' hadds
  obtain ⟨code, hcode, hosts⟩ := hadds
  have hcode : g.code.toList = code := hcode
  have hlinked : State.Linked c ⟨t, false, []⟩ := ⟨hkeyed, ht⟩
  refine yields_pure ⟨(hosts.passes.linked hlinked).registered, fun pending pos pipe hoccurs => ?_⟩
  rw [← hcode] at hosts
  exact hosts.sites hlinked pending pos pipe hoccurs

/-- The actions of each tree have sites in its template. -/
theorem exists_sited {entries : List (String × Tree)} (hdistinct : (entries.map Prod.fst).Nodup)
    (hkeyed : registry.IsKeyed) (hp : p.tables.Registered registry)
    (hadd : addTemplates set registry options p entries = .ok p') (hmem : (name, tree) ∈ entries) :
    ∃ u, p'.templates[name]? = some u ∧
      Sited ⟨set, registry, options, p.schema, name, tree.source⟩ tree p'.tables u := by
  induction entries generalizing p with
  | nil => cases hmem
  | cons entry rest ih =>
    obtain ⟨caller, first⟩ := entry
    obtain ⟨hfirst, hdistinct⟩ := List.nodup_cons.mp hdistinct
    obtain ⟨v, s, hrun, -, hrest⟩ := addTemplates_cons_eq_ok hadd
    obtain ⟨hs, hsited⟩ := yields_sited_template hkeyed hp v s hrun
    rcases List.mem_cons.mp hmem with heq | hmem
    · cases heq
      refine ⟨v, ?_, hsited.mono (addTemplates_adds hs.sound hrest).extends_⟩
      rw [addTemplates_kept hrest hfirst, Std.TreeMap.getElem?_insert_self]
    · exact ih (p := { p with tables := s.tables, templates := p.templates.insert caller v })
        hdistinct hs hrest hmem

/-- The actions of a tree have sites in the template of a compiled program, whether or not an asset hook
is pending in front of them. -/
theorem exists_hookSite (hcompile : compile schema registry options set = .ok p)
    (hkeyed : registry.IsKeyed) (htree : set.get? name = some tree) {pos : Pos} {pipe : Pipeline}
    (hoccurs : (Node.action pos pipe).OccursWith pending false tree.root.nodes) :
    ∃ u, p.templates[name]? = some u ∧
      Nonempty (HookSite ⟨set, registry, options, schema, name, tree.source⟩ pending pos pipe p.tables
        u.code.toList) := by
  obtain ⟨q, hadd, htables, hstitched⟩ := exists_stitched hcompile
  obtain ⟨φ, hφ, htemplate⟩ := hstitched name
  obtain ⟨u, hu, hsited⟩ := exists_sited (nodup_names set) hkeyed
    (Tables.registered_initial registry) hadd (mem_toList_iff.mpr htree)
  rw [hu] at htemplate
  refine ⟨_, htemplate, ?_⟩
  rw [htables]
  exact hsited.map hφ pending pos pipe hoccurs

/-! ### Sets without asset hooks -/

/-- In a set without asset hooks the first commands of an action name none. -/
theorem noHooks_of_occurs (hhooks : ∀ entry ∈ set.toList, NoHooks (Node.allNames entry.2.root.nodes))
    (htree : set.get? name = some tree) {pos pipePos : Pos} {assign : Bool} {decl : List Variable}
    {first rest : List Command}
    (hoccurs : (Node.action pos (.mk pipePos assign decl (first ++ rest))).Occurs tree.root.nodes) :
    NoHooks (Command.allNames first) := by
  intro name hname
  have hmem : name ∈ Command.allNames (first ++ rest) := by
    rw [Command.allNames_append]
    exact List.mem_append_left _ hname
  exact hhooks _ (mem_toList_iff.mpr htree) name (hoccurs.names name hmem)

/-- The actions of a tree have sites in the template of a compiled program. -/
theorem exists_actionSite (hcompile : compile schema registry options set = .ok p)
    (hhooks : ∀ entry ∈ set.toList, NoHooks (Node.allNames entry.2.root.nodes))
    (hkeyed : registry.IsKeyed) (htree : set.get? name = some tree) {pos : Pos} {pipe : Pipeline}
    (hoccurs : (Node.action pos pipe).Occurs tree.root.nodes) :
    ∃ u, p.templates[name]? = some u ∧
      Nonempty (ActionSite ⟨set, registry, options, schema, name, tree.source⟩ pos pipe p.tables
        u.code.toList) := by
  have hnames := hhooks _ (mem_toList_iff.mpr htree)
  obtain ⟨u, hu, ⟨K⟩⟩ := exists_hookSite hcompile hkeyed htree (hoccurs.occursWith hnames)
  exact ⟨u, hu, ⟨K.actionSite⟩⟩

end Compile
end Stencil
