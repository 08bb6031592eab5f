import Stencil.Proofs.Locating
import Stencil.Proofs.Operands
import Stencil.Proofs.Pieces

/-!
# Assignments

What an assignment does, and when it is made. It gives a value to the innermost binding of a variable
and touches no other one, and without a binding of the variable it fails. A pipeline of an action, of a
template call or in parentheses has its assignment right behind its code, so once it has been evaluated
it is made. The assignment of the condition of a branch is the first thing in the body of the branch. It
is made only if the condition is true; a condition that is false leaves the variable as it is.
-/

namespace Stencil

/-- Whether a pipeline of nodes binds its variables right behind its code: it is one of a node that is
not a branch, or in the parentheses of any pipeline. -/
def Pipeline.BoundIn (p : Pipeline) (nodes : List Node) : Prop :=
  ∃ outer ∈ Node.allPipelines nodes,
    (outer.binds ∧ p = outer.pipe) ∨ p ∈ Command.allPipelines outer.pipe.commands

/-- What is done between the jump over the body of a conditional and the binding of its variable. -/
def BranchKind.entry : BranchKind → List Instr
  | .withDot => [.pushDot]
  | .ifThen | .range => []

/-- A machine that has entered the body of a conditional with a value. -/
def BranchKind.enter (kind : BranchKind) (v : Value) (m : Machine) : Machine :=
  match kind with
  | .withDot => { m with dots := m.dot :: m.dots, dot := v }
  | .ifThen | .range => m

/-! ### What an assignment does -/

/-- Whether the innermost binding of a variable has got a value, and no other binding has changed. -/
def Bindings.Assigned (name : Nat) (v : Value) (before after : List (Nat × Value)) : Prop :=
  ∃ above w below, before = above ++ (name, w) :: below ∧ name ∉ above.map Prod.fst ∧
    after = above ++ (name, v) :: below

/-- What an assignment leaves has been assigned. -/
theorem Bindings.assigned_of_assign? {name : Nat} {v : Value} {before after : List (Nat × Value)}
    (h : assign? name v before = some after) : Assigned name v before after := by
  induction before generalizing after with
  | nil => cases h
  | cons b rest ih =>
    rw [assign?] at h
    split at h
    · next hname =>
      cases h
      exact ⟨[], b.2, rest, by rw [← hname]; rfl, List.not_mem_nil, rfl⟩
    · next hname =>
      obtain ⟨rest', hrest, rfl⟩ := Option.map_eq_some_iff.mp h
      obtain ⟨above, w, below, rfl, hnot, rfl⟩ := ih hrest
      refine ⟨b :: above, w, below, rfl, ?_, rfl⟩
      rw [List.map_cons, List.mem_cons, not_or]
      exact ⟨fun heq => hname heq.symm, hnot⟩

namespace Program

/-- Whether a value is assigned to a variable at a point: that fails if there is no binding of the
variable, and otherwise the innermost one gets the value and nothing else changes, apart from the value
being popped. -/
def AssignsAt (p : Program) (P : Point) (name : Nat) (v : Value) : Prop :=
  (name ∉ P.machine.bindings.map Prod.fst ∧ p.FailsAt P (Machine.unbound p.tables name)) ∨
    ∃ stack bindings, P.machine.stack = v :: stack ∧
      Bindings.Assigned name v P.machine.bindings bindings ∧
      p.Reaches P { P with
        pc := P.pc + 1
        machine := { P.machine with stack := stack, bindings := bindings } }

variable {p : Program} {P : Point} {name : Nat} {v : Value} {stack : List Value}

/-- An assignment with a value on the stack assigns it. -/
theorem assignsAt_of_setVar (hi : P.code[P.pc]? = some (.setVar name true))
    (hstack : P.machine.stack = v :: stack) : p.AssignsAt P name v := by
  have hnot : ∀ ns index, Instr.setVar name true ≠ .template ns index := by simp
  cases hassign : Bindings.assign? name v P.machine.bindings with
  | none =>
    have hstep : P.machine.step p.schema p.tables (.setVar name true) =
        .fail (Machine.unbound p.tables name) { P.machine with stack := stack } := by
      simp only [Machine.step, hstack, if_true, hassign]
    refine .inl ⟨fun hmem => ?_, .step hi hnot hstep⟩
    obtain ⟨after, hafter⟩ := Bindings.exists_assign? hmem v
    rw [hafter] at hassign
    cases hassign
  | some bindings =>
    refine .inr ⟨stack, bindings, hstack, Bindings.assigned_of_assign? hassign, ?_⟩
    refine Reaches.refl.next hi ((Env.instr_eq_done hnot).mpr ?_)
    simp only [Machine.step, hstack, if_true, hassign]

/-- The body of a conditional is entered with the value of the condition on top of the stack. -/
theorem reaches_enter (chain : List String) (front rest : List Instr) (kind : BranchKind) {m : Machine}
    (hstack : m.stack = v :: stack) :
    p.Reaches ⟨chain, front ++ kind.entry ++ rest, front.length, m⟩
        ⟨chain, front ++ kind.entry ++ rest, (front ++ kind.entry).length, kind.enter v m⟩ ∧
      (kind.enter v m).stack = v :: stack := by
  cases kind with
  | withDot =>
    have hi : (front ++ [Instr.pushDot] ++ rest)[front.length]? = some .pushDot := by simp
    have hstep : m.step p.schema p.tables .pushDot = .next (BranchKind.withDot.enter v m) := by
      simp only [Machine.step, BranchKind.enter, hstack]
    have hhere : p.Reaches ⟨chain, front ++ [.pushDot] ++ rest, front.length, m⟩
        ⟨chain, front ++ [.pushDot] ++ rest, front.length, m⟩ := .refl
    have hnext := hhere.next hi ((Env.instr_eq_done (i := .pushDot) (by simp)).mpr hstep)
    rw [BranchKind.entry, List.length_append]
    exact ⟨hnext, hstack⟩
  | ifThen | range =>
    rw [BranchKind.entry, List.append_nil]
    exact ⟨.refl, hstack⟩

end Program

namespace Compile

variable {c : Context} {pos : Pos} {s s' : State} {g : Fragment} {t : Tables} {tree : Tree}
  {u : CompiledTemplate} {whole body : List Instr} {orElse : Option (List Instr)} {pipe : Pipeline}
  {v : Variable} {n : Node} {kind : BranchKind} {p : Program}

/-! ### Where assignments are compiled to -/

/-- A pipeline that binds a variable is compiled to what it is without it, and the binding. -/
theorem binding_pipeline_eq_ok (hrun : pipeline c true pipe s = .ok (g, s')) (hdecl : pipe.decl = [v])
    (hs : s.tables.Sound) :
    ∃ g₀ s₀ name, pipeline c false pipe s = .ok (g₀, s₀) ∧ s₀.tables.Extends s'.tables ∧
      s'.tables.strings[name]? = some v.name ∧ g.instrs = g₀.instrs ++ [.setVar name pipe.assign] := by
  obtain ⟨pos, assign, decl, cmds⟩ := pipe
  obtain rfl : decl = [v] := hdecl
  obtain ⟨body, s₁, hcmds, hrun⟩ := bind_eq_ok.mp hrun
  obtain ⟨g₀, s₀, hfold, hrun⟩ := bind_eq_ok.mp hrun
  have hvalue : pipeline c false (.mk pos assign [v] cmds) s = .ok (g₀.mark pos, s₀) :=
    bind_eq_ok.mpr ⟨body, s₁, hcmds, bind_eq_ok.mpr ⟨g₀, s₀, hfold, rfl⟩⟩
  have hs₀ := (yields_condition_emitsBindings _ _ _ hvalue).1.sound hs
  have hbound : Yields (do
        let g ← bindAll c assign g₀ [v]
        return g.mark pos) s₀ fun g s' => ∃ name, s₀.tables.Extends s'.tables ∧
      s'.tables.strings[name]? = some v.name ∧ g.instrs = g₀.instrs ++ [.setVar name assign] := by
    refine .bind (.bind (ensures_intern v.name).yields fun name s₂ hname => ?_) fun _ _ h => yields_pure h
    have hentry := hname.2 (hname.1.sound hs₀)
    cases assign with
    | true => exact yields_pure ⟨name, hname.1.extends_, hentry, Fragment.instrs_push g₀ _⟩
    | false =>
      exact yields_modify_bind (yields_pure ⟨name, hname.1.extends_, hentry, Fragment.instrs_push g₀ _⟩)
  obtain ⟨name, hextends, hentry, hcode⟩ := hbound g s' hrun
  exact ⟨g₀.mark pos, s₀, name, hvalue, hextends, hentry, hcode⟩

/-- Whether a pipeline that binds the variable `v` has been compiled to a piece of code. -/
def BoundAt (c : Context) (v : Variable) (t : Tables) (whole : List Instr) (V : PipelineVisit) : Prop :=
  V.pipe.decl = [v] → ∃ s g s', s.tables.Sound ∧ pipeline c true V.pipe s = .ok (g, s') ∧
    s'.tables.Extends t ∧ g.instrs <:+: whole

/-- Code that binds a variable is not folded. -/
theorem lasting_boundAt (all : List PipelineVisit) : Lasting c all (BoundAt c v) where
  here hs hrun _ := ⟨_, _, _, hs, hrun, .refl _, List.infix_rfl⟩
  mono h hwhole hextends hdecl := by
    obtain ⟨s, g, s', hs, hrun, ht, hpart⟩ := h hdecl
    exact ⟨s, g, s', hs, hrun, ht.trans hextends, hpart.trans hwhole⟩
  folded _ _ _ _ hfolded h hdecl := by
    obtain ⟨s, g, s', hs, hrun, -, hpart⟩ := h hdecl
    obtain ⟨_, _, name, -, -, -, hcode⟩ := binding_pipeline_eq_ok hrun hdecl hs
    have hmem := hpart.subset (hcode ▸ List.mem_append_right _ (List.mem_singleton_self _))
    cases hfolded.constant _ hmem

/-- A pipeline that binds its variable is compiled to a piece of its template. -/
theorem WrittenFrom.exists_bound (h : WrittenFrom c tree t u) (hpipe : pipe.BoundIn tree.root.nodes)
    (hdecl : pipe.decl = [v]) :
    ∃ s g s', s.tables.Sound ∧ pipeline c true pipe s = .ok (g, s') ∧ s'.tables.Extends t ∧
      Straight g.instrs ∧ Enclosed g.instrs u.code.toList := by
  obtain ⟨⟨binds, outer⟩, houter, hpipe⟩ := hpipe
  obtain ⟨s, g, s', hs, hrun, hextends, hstraight, hplace⟩ := h.holds _ houter
  obtain ⟨V, rfl, hbound⟩ : ∃ V : PipelineVisit, V.pipe = pipe ∧ BoundAt c v s'.tables g.instrs V := by
    rcases hpipe with ⟨hbinds, heq⟩ | hinner
    · obtain rfl : binds = true := hbinds
      obtain rfl : pipe = outer := heq
      exact ⟨⟨pipe, s⟩, rfl, (lasting_boundAt []).here hs hrun⟩
    · obtain ⟨code, hcode, hvisits, -, hpipes⟩ :=
        yields_pipeline_pipelines (lasting_boundAt _) binds outer s (List.Subset.refl _) g s' hrun
      obtain rfl : g.instrs = code := hcode
      rw [← hvisits] at hinner
      obtain ⟨V, hV, hpipe⟩ := List.mem_map.mp hinner
      exact ⟨V, hpipe, (hpipes hs).2 V hV⟩
  obtain ⟨s₁, g₁, s₁', hs₁, hrun₁, ht, hpart⟩ := hbound hdecl
  refine ⟨s₁, g₁, s₁', hs₁, hrun₁, ht.trans hextends, fun i hi => hstraight i (hpart.subset hi), ?_⟩
  rcases hplace with henclosed | hquiet
  · exact (hstraight.enclosed hpart).trans henclosed
  · -- code without bindings may have been left out, but this is not such code
    obtain ⟨_, _, name, -, -, -, hcode⟩ := binding_pipeline_eq_ok hrun₁ hdecl hs₁
    have hmem := hpart.subset (hcode ▸ List.mem_append_right _ (List.mem_singleton_self _))
    cases (hquiet _ hmem).2

/-- A node of a tree is compiled to a piece of its template, apart from calls that have been replaced. -/
theorem WrittenFrom.exists_lies (h : WrittenFrom c tree t u) (hoccurs : n.Occurs tree.root.nodes) :
    ∃ φ whole, Instr.Replacing φ ∧ Lies c n t whole ∧ u.code.toList = whole.map φ := by
  obtain ⟨v, φ, ⟨s, f, s', hnodes, hs, -, hextends, rfl⟩, hφ, rfl⟩ := h
  obtain ⟨whole, hwhole, hlies⟩ := Compile.exists_lies hoccurs hnodes hs
  have hwhole : f.code.toList = whole := hwhole
  exact ⟨φ, whole, hφ, hlies.mono (.refl _) hextends, by rw [Array.toList_map, hwhole]⟩

/-- A conditional that assigns its variable does so first in its body, which is jumped over if the
condition is false. -/
theorem exists_branchCode_assign (hkind : kind ≠ .range) (name : Nat) (pop : Option Nat)
    (hbody : Closed body) (horElse : Closed (orElse.getD [])) :
    ∃ (k : Nat) (rest : List Instr),
      branchCode kind true [name] pop body orElse =
        (.jmpf k :: kind.entry) ++ [.setVar name true] ++ rest ∧
      Closed rest ∧ kind.entry.length + 1 ≤ k := by
  have hother := closed_alternativeCode (closed_otherCode [name] pop horElse)
  have hpop := closed_popCode (boundPop pop)
  have hlast := closed_popCode (lastPop [name] pop)
  cases kind with
  | range => exact absurd rfl hkind
  | ifThen =>
    refine ⟨(boundCode true [name] pop body).length + (otherCode [name] pop orElse).isSome.toNat,
      body ++ popCode (boundPop pop) ++ alternativeCode (otherCode [name] pop orElse) ++
        popCode (lastPop [name] pop), ?_, ((hbody.append hpop).append hother).append hlast, ?_⟩
    · simp [branchCode, conditionalCode, boundCode, BranchKind.entry]
    · simp only [boundCode, BranchKind.entry, List.length_append, List.length_cons, List.length_nil]
      omega
  | withDot =>
    have hdot : Closed [.popDot] := closed_cons rfl closed_nil
    refine ⟨(boundCode true [name] pop body).length + 2 + (otherCode [name] pop orElse).isSome.toNat,
      body ++ popCode (boundPop pop) ++ [.popDot] ++ alternativeCode (otherCode [name] pop orElse) ++
        popCode (lastPop [name] pop), ?_,
      (((hbody.append hpop).append hdot).append hother).append hlast, ?_⟩
    · simp [branchCode, conditionalCode, boundCode, BranchKind.entry]
      omega
    · simp only [boundCode, BranchKind.entry, List.length_append, List.length_cons, List.length_nil]
      omega

/-! ### Sites of assignments -/

/-- The code of a pipeline, what is done in between, and an assignment. -/
def assignCode (code between : List Instr) (name : Nat) : List Instr :=
  code ++ between ++ [.setVar name true]

/-- Where a pipeline that assigns a variable lies in the code of a template: the code that evaluates it,
what is done in `between`, and the assignment. No jump leads between two of these instructions. -/
structure AssignSite (c : Context) (t : Tables) (pipe : Pipeline) (v : Variable)
    (between : List Instr) where
  front : List Instr
  code : List Instr
  rest : List Instr
  /-- The index of the name of the variable. -/
  name : Nat
  compiled : ∃ s g s', pipeline c false pipe s = .ok (g, s') ∧ s'.tables.Extends t ∧ g.instrs = code
  straight : Straight code
  named : t.strings[name]? = some v.name
  skips : Skips front.length (front.length + (assignCode code between name).length : Nat)
    (front ++ assignCode code between name ++ rest)

namespace AssignSite

variable {between : List Instr}

/-- The code of the template. -/
def instrs (K : AssignSite c t pipe v between) : List Instr :=
  K.front ++ assignCode K.code between K.name ++ K.rest

/-- The offset behind the code of the pipeline. -/
def stop (K : AssignSite c t pipe v between) : Nat := (K.front ++ K.code).length

/-- The offset of the assignment. -/
def offset (K : AssignSite c t pipe v between) : Nat := (K.front ++ K.code ++ between).length

/-- Whether the runs that get behind the code of the pipeline are those that have begun and evaluated
it. -/
def Evaluates (K : AssignSite c t pipe v between) (p : Program) : Prop :=
  ∀ start chain m', start.pc = 0 → (p.Reaches start ⟨chain, K.instrs, K.stop, m'⟩ ↔
    ∃ m, p.Reaches start ⟨chain, K.instrs, K.front.length, m⟩ ∧
      m.steps p.schema p.tables K.code = .done m')

/-- Whether the value of the pipeline is assigned as soon as it has been evaluated. -/
def Assigns (K : AssignSite c t pipe v []) (p : Program) : Prop :=
  ∀ chain m w stack, m.stack = w :: stack → p.AssignsAt ⟨chain, K.instrs, K.stop, m⟩ K.name w

/-- Whether the value of a condition is assigned as soon as the body has been entered if it is true, and
whether the assignment is passed over with the machine as it is if the value is false. -/
def AssignsIfTrue (K : AssignSite c t pipe v between) (kind : BranchKind) (p : Program) : Prop :=
  ∀ chain m w stack, m.stack = w :: stack →
    (w.isTrue → p.Reaches ⟨chain, K.instrs, K.stop, m⟩ ⟨chain, K.instrs, K.offset, kind.enter w m⟩ ∧
      p.AssignsAt ⟨chain, K.instrs, K.offset, kind.enter w m⟩ K.name w) ∧
    (w.isTrue = false → ∃ target, K.offset < target ∧
      p.Reaches ⟨chain, K.instrs, K.stop, m⟩ ⟨chain, K.instrs, target, m⟩)

/-- A pipeline and its assignment that can only be entered at the start of the pipeline are at a site. -/
theorem exists_of_enclosed {s s' : State} {name : Nat} (hrun : pipeline c false pipe s = .ok (g, s'))
    (hextends : s'.tables.Extends t) (hnamed : t.strings[name]? = some v.name)
    (hskips : Skips 0 (assignCode g.instrs between name).length (assignCode g.instrs between name))
    (henclosed : Enclosed (assignCode g.instrs between name) whole) :
    ∃ K : AssignSite c t pipe v between, K.instrs = whole := by
  obtain ⟨front, rest, rfl, hfront, hrest⟩ := henclosed
  have hstraight := (yields_condition_emitsBindings pipe g s' hrun).1.straight
  exact ⟨⟨front, g.instrs, rest, name, ⟨s, g, s', hrun, hextends, rfl⟩, hstraight, hnamed,
    hskips.whole hfront hrest⟩, rfl⟩

/-- The code around an assignment site, split in front of the code between the pipeline and its assignment. -/
theorem instrs_eq_code (K : AssignSite c t pipe v between) :
    K.instrs = K.front ++ K.code ++ (between ++ .setVar K.name true :: K.rest) := by
  simp only [instrs, assignCode, List.append_assoc, List.singleton_append]

/-- The code around an assignment site, split in front of the assignment. -/
theorem instrs_eq_assignment (K : AssignSite c t pipe v between) :
    K.instrs = (K.front ++ K.code ++ between) ++ .setVar K.name true :: K.rest := by
  simp only [instrs, assignCode, List.append_assoc, List.singleton_append]

/-- The assignment is found at its offset. -/
theorem getElem?_offset (K : AssignSite c t pipe v between) :
    K.instrs[K.offset]? = some (.setVar K.name true) := by
  rw [instrs_eq_assignment, offset, List.getElem?_append_right (Nat.le_refl _), Nat.sub_self]
  rfl

/-- The code of the pipeline is entered at its start. -/
theorem evaluates (K : AssignSite c t pipe v between) (p : Program) : K.Evaluates p := by
  intro start chain m' hzero
  constructor
  · intro hreach
    have htake : (assignCode K.code between K.name).take K.code.length = K.code := by
      rw [assignCode, List.append_assoc, List.take_left]
    have hfirst : Straight ((assignCode K.code between K.name).take K.code.length) :=
      htake.symm ▸ K.straight
    have hlt : K.code.length < (assignCode K.code between K.name).length := by
      simp only [assignCode, List.length_append, List.length_singleton]
      omega
    obtain ⟨m, hentry, hsteps⟩ :=
      hreach.exists_entry K.skips hfirst hzero rfl List.length_append hlt
    rw [htake] at hsteps
    exact ⟨m, hentry, hsteps⟩
  · rintro ⟨m, hreach, hsteps⟩
    rw [instrs_eq_code] at hreach ⊢
    exact hreach.steps K.straight hsteps

/-- An assignment right behind its pipeline is always made. -/
theorem assigns (K : AssignSite c t pipe v []) (p : Program) : K.Assigns p := by
  intro chain m w stack hstack
  have hoffset : K.stop = K.offset := by rw [stop, offset, List.append_nil]
  rw [hoffset]
  exact Program.assignsAt_of_setVar K.getElem?_offset hstack

section

variable {k : Nat} (K : AssignSite c t pipe v (.jmpf k :: kind.entry)) {m : Machine} {w : Value}
  {stack : List Value}

/-- The jump of a condition is found at its offset. -/
theorem getElem?_stop : K.instrs[K.stop]? = some (.jmpf k) := by
  rw [instrs_eq_code, stop, List.cons_append, List.getElem?_append_right (Nat.le_refl _), Nat.sub_self]
  rfl

/-- With a value that is true the body is entered, up to the assignment. -/
theorem reaches_offset (p : Program) (chain : List String) (hstack : m.stack = w :: stack)
    (htrue : w.isTrue) :
    p.Reaches ⟨chain, K.instrs, K.stop, m⟩ ⟨chain, K.instrs, K.offset, kind.enter w m⟩ ∧
      (kind.enter w m).stack = w :: stack := by
  have hstep : m.step p.schema p.tables (.jmpf k) = .next m := by
    simp [Machine.step, hstack, htrue]
  have hinside : p.Reaches ⟨chain, K.instrs, K.stop, m⟩ ⟨chain, K.instrs, K.stop + 1, m⟩ :=
    Program.Reaches.refl.next K.getElem?_stop ((Env.instr_eq_done (i := .jmpf k) (by simp)).mpr hstep)
  have hentered := Program.reaches_enter (p := p) chain (K.front ++ K.code ++ [.jmpf k])
    (.setVar K.name true :: K.rest) kind hstack
  have hbegin : (K.front ++ K.code ++ [Instr.jmpf k]).length = K.stop + 1 := List.length_append
  have hend : (K.front ++ K.code ++ [Instr.jmpf k] ++ kind.entry).length = K.offset := by
    rw [offset, List.append_assoc, List.singleton_append]
  have hcode : K.front ++ K.code ++ [Instr.jmpf k] ++ kind.entry ++ .setVar K.name true :: K.rest =
      K.instrs := by
    rw [instrs_eq_code]
    simp only [List.append_assoc, List.cons_append, List.nil_append]
  rw [hcode, hbegin, hend] at hentered
  exact ⟨hinside.trans hentered.1, hentered.2⟩

/-- With a value that is false the assignment is jumped over. -/
theorem passes_offset (p : Program) (chain : List String) (hclosed : Closed K.instrs)
    (hstack : m.stack = w :: stack) (hfalse : w.isTrue = false) :
    ∃ target, K.offset < target ∧
      p.Reaches ⟨chain, K.instrs, K.stop, m⟩ ⟨chain, K.instrs, target, m⟩ := by
  have hjump := K.getElem?_stop
  have hstep : m.step p.schema p.tables (.jmpf k) = .jump k m := by
    simp [Machine.step, hstack, hfalse]
  have hfits := hclosed K.stop _ k hjump rfl
  have htarget : jumpTarget? K.stop k K.instrs.length = some (K.stop + k + 1) :=
    jumpTarget?_eq_some_iff.mpr ⟨by omega, by omega⟩
  refine ⟨K.stop + k + 1, ?_, Program.Reaches.refl.jump hjump hstep htarget⟩
  -- no jump leads between the code of the condition and the assignment
  have hover := K.skips K.stop _ k hjump rfl
  simp only [stop, offset, assignCode, List.length_append, List.length_cons, List.length_nil] at hover ⊢
  omega

/-- An assignment in a condition is made if the condition holds. -/
theorem assignsIfTrue (hclosed : Closed K.instrs) (p : Program) : K.AssignsIfTrue kind p := by
  intro chain m w stack hstack
  refine ⟨fun htrue => ?_, K.passes_offset p chain hclosed hstack⟩
  obtain ⟨hreach, hentered⟩ := K.reaches_offset p chain hstack htrue
  exact ⟨hreach, Program.assignsAt_of_setVar K.getElem?_offset hentered⟩

end

end AssignSite

/-! ### Assignments of compiled programs -/

/-- A pipeline that binds its variable itself has its assignment right behind its code. -/
theorem WrittenFrom.exists_assignSite (h : WrittenFrom c tree t u)
    (hpipe : pipe.BoundIn tree.root.nodes) (hassign : pipe.assign = true) (hdecl : pipe.decl = [v]) :
    ∃ K : AssignSite c t pipe v [], K.instrs = u.code.toList := by
  obtain ⟨s, g, s', hs, hrun, hextends, hstraight, henclosed⟩ := h.exists_bound hpipe hdecl
  obtain ⟨g₀, s₀, name, hvalue, hbefore, hnamed, hcode⟩ := binding_pipeline_eq_ok hrun hdecl hs
  have hsite : g.instrs = assignCode g₀.instrs [] name := by
    rw [hcode, hassign, assignCode, List.append_nil]
  rw [hsite] at hstraight henclosed
  exact AssignSite.exists_of_enclosed hvalue (hbefore.trans hextends) (hextends.strings _ _ hnamed)
    (hstraight.skips _ _) henclosed

/-- Nothing is replaced in the code of a condition and of its assignment. -/
theorem map_assignCode {code : List Instr} (hcode : Straight code) {φ : Instr → Instr}
    (hφ : Instr.Replacing φ) (k : Int) (name : Nat) :
    (assignCode code (.jmpf k :: kind.entry) name).map φ = assignCode code (.jmpf k :: kind.entry) name := by
  have hjump : φ (.jmpf k) = .jmpf k := hφ.fixes nofun
  have hset : φ (.setVar name true) = .setVar name true := hφ.fixes nofun
  have hpush : φ .pushDot = .pushDot := hφ.fixes nofun
  have hentry : kind.entry.map φ = kind.entry := by
    cases kind <;> simp [BranchKind.entry, hpush]
  simp only [assignCode, List.map_append, List.map_cons, List.map_nil, hcode.map_replacing hφ, hjump, hentry,
    hset]

/-- No jump leads into a condition and what is in front of its assignment. -/
theorem skips_assignCode {code : List Instr} (hcode : Straight code) {k : Nat}
    (hover : kind.entry.length + 1 ≤ k) (name : Nat) :
    Skips 0 (assignCode code (.jmpf k :: kind.entry) name).length
      (assignCode code (.jmpf k :: kind.entry) name) := by
  have hentry (low high : Int) : Skips low high (kind.entry ++ [.setVar name true]) := by
    intro pc i j hi hj
    have hmem := List.mem_of_getElem? hi
    cases kind <;> simp [BranchKind.entry] at hmem <;> grind [Instr.distance?]
  rw [assignCode, List.append_assoc, List.cons_append]
  refine (hcode.skips _ _).append (.cons (fun j hj => .inr ?_) (hentry _ _))
  cases hj
  simp only [List.length_append, List.length_cons, List.length_nil]
  omega

/-- The condition of a conditional has its assignment behind a jump over it. -/
theorem WrittenFrom.exists_conditionSite (h : WrittenFrom c tree t u) {body : Block Node}
    {orElse : Option (Block Node)} (hoccurs : (Node.branch kind pos pipe body orElse).Occurs tree.root.nodes)
    (hkind : kind ≠ .range) (hassign : pipe.assign = true) (hdecl : pipe.decl = [v]) :
    ∃ (k : Nat) (K : AssignSite c t pipe v (.jmpf k :: kind.entry)), K.instrs = u.code.toList := by
  obtain ⟨φ, whole, hφ, ⟨f, s, f', s', code, hs, hn, hcode, hextends, hin⟩, hwhole⟩ := h.exists_lies hoccurs
  obtain ⟨B, hB⟩ := yields_branchSteps _ _ hn
  obtain rfl : code = B.instrs := List.append_cancel_left (hcode.symm.trans hB)
  have hnames := B.names_decl hs
  rw [hdecl] at hnames
  obtain ⟨name, hname, hnamed⟩ := List.map_eq_singleton_iff.mp hnames
  obtain ⟨k, rest, hbranch, hclosed, hover⟩ :=
    exists_branchCode_assign hkind name B.pop B.closed_taken B.closed_other
  have hstraight := B.emits_condition.straight
  have hsplit : B.instrs = Fragment.holdCode B.pop ++
      assignCode B.condition.instrs (.jmpf k :: kind.entry) name ++ rest := by
    rw [BranchSteps.instrs, hname, hassign, hbranch, assignCode]
    simp only [List.append_assoc]
  have henclosed : Enclosed (assignCode B.condition.instrs (.jmpf k :: kind.entry) name) whole := by
    refine Enclosed.trans ?_ hin
    rw [hsplit]
    exact .between (Env.closed_holdCode B.pop) hclosed _
  have hmapped := henclosed.map hφ.distance?
  rw [map_assignCode hstraight hφ, ← hwhole] at hmapped
  obtain ⟨K, hK⟩ := AssignSite.exists_of_enclosed (v := v) B.compiled_condition
    (B.extends_afterCondition.trans hextends) (hextends.strings _ _ hnamed) (skips_assignCode hstraight hover name)
    hmapped
  exact ⟨k, K, hK⟩

variable {set : TemplateSet} {registry : Registry} {options : CompileOptions} {schema : Schema}
  {name : String}

/-- Wherever a pipeline that assigns a variable has been evaluated, its value is assigned to the innermost
binding of the variable and no other binding changes, or the run fails if there is none. That is so at
once for every pipeline of an action or a template call and for every one in parentheses. The value of
the condition of a conditional is assigned when its body is entered; if it is false the assignment is
passed over and all bindings stay as they are. -/
theorem assignments_follow_evaluation (hcompile : compile schema registry options set = .ok p)
    (htree : set.get? name = some tree) :
    ∃ u, p.templates[name]? = some u ∧
      (∀ pipe v, pipe.BoundIn tree.root.nodes → pipe.assign = true → pipe.decl = [v] →
        (∃ K : AssignSite ⟨set, registry, options, schema, name, tree.source⟩ p.tables pipe v [],
          K.instrs = u.code.toList) ∧
        ∀ K : AssignSite ⟨set, registry, options, schema, name, tree.source⟩ p.tables pipe v [],
          K.Evaluates p ∧ K.Assigns p) ∧
      ∀ kind pos pipe body orElse v, (Node.branch kind pos pipe body orElse).Occurs tree.root.nodes →
        kind ≠ .range → pipe.assign = true → pipe.decl = [v] →
        (∃ (k : Nat) (K : AssignSite ⟨set, registry, options, schema, name, tree.source⟩ p.tables pipe v
            (.jmpf k :: kind.entry)), K.instrs = u.code.toList) ∧
        ∀ (k : Nat) (K : AssignSite ⟨set, registry, options, schema, name, tree.source⟩ p.tables pipe v
            (.jmpf k :: kind.entry)), K.instrs = u.code.toList → K.Evaluates p ∧ K.AssignsIfTrue kind p := by
  obtain ⟨u, hu, hwritten⟩ := exists_template_of_compile hcompile htree
  refine ⟨u, hu, fun pipe v hpipe hassign hdecl => ⟨?_, ?_⟩, ?_⟩
  · exact hwritten.exists_assignSite hpipe hassign hdecl
  · exact fun K => ⟨K.evaluates p, K.assigns p⟩
  · intro kind pos pipe body orElse v hoccurs hkind hassign hdecl
    refine ⟨hwritten.exists_conditionSite hoccurs hkind hassign hdecl, fun k K hK => ?_⟩
    have hclosed : Closed K.instrs := hK ▸ hwritten.structured.1.closed
    exact ⟨K.evaluates p, K.assignsIfTrue hclosed p⟩

end Compile

/-! ### Samples -/

namespace Sample

/-- `$x := "..."` or `$x = "..."`. -/
def textPipe (assign : Bool) (text : String) : Pipeline :=
  .mk 0 assign [⟨0, ["$x"]⟩] [.mk 0 [.string 0 text]]

/-- `{{$x := "a"}}{{$x = "b"}}{{if $x = ""}}{{end}}{{$x}}` -/
def assigning : TemplateSet :=
  .ofRoot ⟨"main", ⟨0, [.action 0 (textPipe false "a"), .action 0 (textPipe true "b"),
    .branch .ifThen 0 (textPipe true "") ⟨0, []⟩ none,
    .action 0 (.mk 0 false [] [.mk 0 [.var ⟨0, ["$x"]⟩]])]⟩, none⟩

/-- The indices of the three texts in the code of the sample, and that of the variable. -/
def assigningCode? (code : List Instr) : Option (Nat × Nat × Nat × Nat) :=
  match code with
  | [.string a, .setVar x false, .string b, .setVar x' true, .string e, .jmpf 2, .setVar y true, .jmp 1,
      .pop 1, .var y', .print, .pop 1] =>
    if x' = x ∧ y = x ∧ y' = x then some (a, b, e, x) else none
  | _ => none

/-- The code of the sample. -/
theorem exists_assigning : ∃ p u a b e x, Compile.compile .plain .empty .standard assigning = .ok p ∧
    p.templates["main"]? = some u ∧
    u.code.toList = [.string a, .setVar x false, .string b, .setVar x true, .string e, .jmpf 2,
      .setVar x true, .jmp 1, .pop 1, .var x, .print, .pop 1] ∧
    p.tables.strings[a]? = some "a" ∧ p.tables.strings[b]? = some "b" ∧
    p.tables.strings[e]? = some "" ∧ p.tables.strings[x]? = some "x" := by
  obtain ⟨p, hp⟩ : ∃ p, Compile.compile .plain .empty .standard assigning = .ok p :=
    Compile.exists_of_isOk (by decide +kernel)
  have hall : (Compile.compile .plain .empty .standard assigning).toOption.all fun p =>
      p.templates["main"]?.any fun u => (assigningCode? u.code.toList).any fun r =>
        p.tables.strings[r.1]? == some "a" && p.tables.strings[r.2.1]? == some "b" &&
          p.tables.strings[r.2.2.1]? == some "" && p.tables.strings[r.2.2.2]? == some "x" := by
    decide +kernel
  rw [hp] at hall
  simp only [Except.toOption, Option.all_some, Option.any_eq_true, Bool.and_eq_true, beq_iff_eq] at hall
  obtain ⟨u, hu, ⟨a, b, e, x⟩, hcode, ⟨⟨ha, hb⟩, he⟩, hx⟩ := hall
  refine ⟨p, u, a, b, e, x, hp, hu, ?_, ha, hb, he, hx⟩
  unfold assigningCode? at hcode
  split at hcode
  · next heq =>
    split at hcode
    · next hsame =>
      cases hcode
      rw [heq, hsame.1, hsame.2.1, hsame.2.2]
    · cases hcode
  · cases hcode

end Sample

namespace Compile

/-- In the sample the assignment of the action is made, and that of the condition if this is true. -/
theorem assignments_follow_evaluation_sample :
    ∃ p u, compile .plain .empty .standard Sample.assigning = .ok p ∧ p.templates["main"]? = some u ∧
      (∃ K : AssignSite ⟨Sample.assigning, .empty, .standard, .plain, "main", none⟩ p.tables
          (Sample.textPipe true "b") ⟨0, ["$x"]⟩ [],
        K.instrs = u.code.toList ∧ K.Evaluates p ∧ K.Assigns p) ∧
      ∃ (k : Nat) (K : AssignSite ⟨Sample.assigning, .empty, .standard, .plain, "main", none⟩ p.tables
          (Sample.textPipe true "") ⟨0, ["$x"]⟩ (.jmpf k :: BranchKind.ifThen.entry)),
        K.instrs = u.code.toList ∧ K.Evaluates p ∧ K.AssignsIfTrue .ifThen p := by
  obtain ⟨p, hp⟩ : ∃ p, compile .plain .empty .standard Sample.assigning = .ok p :=
    exists_of_isOk (by decide +kernel)
  have hget : Sample.assigning.get? "main" = some ⟨"main", ⟨0, [.action 0 (Sample.textPipe false "a"),
    .action 0 (Sample.textPipe true "b"), .branch .ifThen 0 (Sample.textPipe true "") ⟨0, []⟩ none,
    .action 0 (.mk 0 false [] [.mk 0 [.var ⟨0, ["$x"]⟩]])]⟩, none⟩ := rfl
  obtain ⟨u, hu, hbound, hcondition⟩ := assignments_follow_evaluation hp hget
  obtain ⟨⟨K, hK⟩, hassigns⟩ := hbound (Sample.textPipe true "b") ⟨0, ["$x"]⟩
    ⟨⟨true, Sample.textPipe true "b"⟩, by simp [Node.allPipelines, Node.pipelines], .inl ⟨rfl, rfl⟩⟩ rfl rfl
  obtain ⟨⟨k, L, hL⟩, hiftrue⟩ := hcondition .ifThen 0 (Sample.textPipe true "") ⟨0, []⟩ none ⟨0, ["$x"]⟩
    (.behind _ (.behind _ (.here _))) nofun rfl rfl
  exact ⟨p, u, hp, hu, ⟨K, hK, hassigns K⟩, k, L, hL, hiftrue k L hL⟩

/-- In the sample the condition evaluates to the empty text, but the variable it assigns keeps its
value. -/
theorem assignment_is_lost :
    ∃ p u P Q x, compile .plain .empty .standard Sample.assigning = .ok p ∧
      p.templates["main"]? = some u ∧ p.tables.strings[x]? = some "x" ∧
      p.Reaches (Program.startPoint "main" u .nil .nil (.fresh .unlimited .none)) P ∧
      P.code[P.pc]? = some (.jmpf 2) ∧ P.code[P.pc + 1]? = some (.setVar x true) ∧
      P.machine.stack = [.str ""] ∧ Bindings.get? x P.machine.bindings = some (.str "b") ∧
      p.Reaches P Q ∧ Q.code[Q.pc]? = some (.var x) ∧
      Bindings.get? x Q.machine.bindings = some (.str "b") := by
  obtain ⟨p, u, a, b, e, x, hp, hu, hcode, ha, hb, he, hx⟩ := Sample.exists_assigning
  let m := ((Machine.fresh .unlimited .none).bind Tables.varsVar .nil).activate "" .nil
  let m₁ := { m with stack := [.str ""], bindings := (x, .str "b") :: m.bindings }
  let front : List Instr := [.string a, .setVar x false, .string b, .setVar x true, .string e]
  let rest : List Instr := [.jmpf 2, .setVar x true, .jmp 1, .pop 1, .var x, .print, .pop 1]
  have hstart : p.Reaches (Program.startPoint "main" u .nil .nil (.fresh .unlimited .none))
      ⟨["main"], [] ++ front ++ rest, ([] : List Instr).length, m⟩ := by
    rw [Program.startPoint, hcode]
    exact .refl
  have hsound := sound_of_compile hp
  have hsteps : m.steps p.schema p.tables front = .done m₁ := by
    simp only [front, Machine.steps, Machine.step, hsound.texts, ha, hb, he, Machine.push, Machine.bind,
      Bindings.assign?, Bool.false_eq_true, if_true, if_false]
    rfl
  have hP : p.Reaches _ ⟨["main"], [] ++ front ++ rest, 5, m₁⟩ :=
    hstart.steps (by simp [front, Straight, Instr.isStraight]) hsteps
  have hjump : p.Reaches ⟨["main"], [] ++ front ++ rest, 5, m₁⟩ ⟨["main"], [] ++ front ++ rest, 8, m₁⟩ :=
    .jump (i := .jmpf 2) .refl rfl rfl rfl
  have hpop := hjump.next (i := .pop 1) (m := { m₁ with stack := [] }) rfl rfl
  exact ⟨p, u, _, _, x, hp, hu, hx, hP, rfl, rfl, rfl, Bindings.get?_cons_self .., hpop, rfl,
    Bindings.get?_cons_self ..⟩

end Compile
end Stencil
