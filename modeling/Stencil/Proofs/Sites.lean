import Stencil.Proofs.Templates

/-!
# Branches in compiled programs

Where the code of a branch lies in a compiled program, which parts it has, and what a run does that
gets there. The condition is run first; from there on only the value it leaves counts. Every branch of a
well-formed set has one such place, at the offset at which it has been compiled.
-/

namespace Stencil

namespace Compile

/-! ### Code in which calls are replaced -/

section

variable {φ : Instr → Instr} {kind : BranchKind} {assign : Bool} {decl : List Nat} {pop : Option Nat}
  {body : List Instr} {orElse : Option (List Instr)}

/-- Replacing calls does not change the code around the bodies of a branch. -/
theorem map_branchCode (hsame : ∀ i, (∀ ns index, i ≠ .template ns index) → φ i = i) :
    (branchCode kind assign decl pop body orElse).map φ =
      branchCode kind assign decl pop (body.map φ) (orElse.map (List.map φ)) := by
  have hpop (n : Option Nat) : (popCode n).map φ = popCode n := by
    cases n <;> simp [popCode, hsame]
  have hunset (names : List Nat) : (unsetCode names).map φ = unsetCode names := by
    simp [unsetCode, hsame]
  have hbound : (boundCode assign decl pop body).map φ = boundCode assign decl pop (body.map φ) := by
    cases decl <;> cases assign <;> simp [boundCode, hpop, hunset, hsame]
  have hother : (otherCode decl pop orElse).map (List.map φ) =
      otherCode decl pop (orElse.map (List.map φ)) := by
    cases orElse <;> cases hd : (!decl.isEmpty && pop.isSome) <;> simp [otherCode, hd, hpop]
  have hturn : (turnCode assign decl body).map φ = turnCode assign decl (body.map φ) := by
    rcases decl with _ | ⟨key, _ | ⟨value, rest⟩⟩ <;> cases assign <;>
      simp [turnCode, bindCode, hunset, hsame]
  cases kind with
  | ifThen => simp [branchCode, map_conditionalCode hsame, hbound, hother, hpop]
  | withDot => simp [branchCode, map_conditionalCode hsame, hbound, hother, hpop, hsame]
  | range => simp [branchCode, map_loopCode hsame, hturn, hpop, hsame]

/-- Straight-line code has no calls to replace. -/
theorem map_straight (hsame : ∀ i, (∀ ns index, i ≠ .template ns index) → φ i = i)
    {code : List Instr} (hcode : Straight code) : code.map φ = code := by
  refine (List.map_congr_left fun i hi => ?_).trans (List.map_id code)
  apply hsame i
  intro ns index heq
  have hstraight := hcode i hi
  rw [heq] at hstraight
  cases hstraight

/-- Replacing calls leaves all jumps as they were. -/
theorem closed_map (hsame : ∀ i, (∀ ns index, i ≠ .template ns index) → φ i = i)
    (hjump : ∀ ns index, (φ (.template ns index)).distance? = none) {code : List Instr}
    (hcode : Closed code) : Closed (code.map φ) := by
  intro pc i' k hi' hk
  rw [List.getElem?_map, Option.map_eq_some_iff] at hi'
  obtain ⟨i, hi, rfl⟩ := hi'
  rw [List.length_map]
  apply hcode pc i k hi
  by_cases hcall : ∃ ns index, i = .template ns index
  · obtain ⟨ns, index, rfl⟩ := hcall
    rw [hjump] at hk
    cases hk
  · rwa [hsame i fun ns index heq => hcall ⟨ns, index, heq⟩] at hk

end

/-! ### Sites -/

/-- The place of a branch in a compiled program, of the `k`-th node of its template in the order of the
source: the steps in which it has been compiled at that point, and its code at the offset where the
template has it. Calls of templates that consist of a chunk may have been replaced by the chunk. -/
structure Site (c : Context) (p : Program) (k : Nat) (kind : BranchKind) (pos : Pos) (pipe : Pipeline)
    (body : Block Node) (orElse : Option (Block Node)) where
  visit : Visit
  result : Fragment
  after : State
  steps : BranchSteps c kind pipe body orElse visit.before after
  template : CompiledTemplate
  front : List Instr
  rest : List Instr
  stitch : Instr → Instr
  visited : (c.set.visits c.schema c.registry c.options c.name)[k]? = some visit
  node_eq : visit.node = .branch kind pos pipe body orElse
  compiled : node c visit.front visit.node visit.before = .ok (result, after)
  instrs_result : result.instrs = visit.front.instrs ++ steps.instrs
  extends_ : after.tables.Extends p.tables
  found : p.templates[c.name]? = some template
  length_front : front.length = visit.start
  code_eq : template.code.toList = front ++ steps.instrs.map stitch ++ rest
  stitches : ∀ i, p.Stitches i (stitch i)

namespace Site

variable {c : Context} {p q : Program} {k : Nat} {kind : BranchKind} {pos : Pos} {pipe : Pipeline}
  {body : Block Node} {orElse : Option (Block Node)} {m l : Machine} {o : Outcome} {v : Value}
  {stack : List Value}

/-- The code of the condition. -/
def condition (S : Site c p k kind pos pipe body orElse) : List Instr := S.steps.condition.instrs

/-- The indices of the variables of the branch. -/
def decl (S : Site c p k kind pos pipe body orElse) : List Nat := S.steps.decl

/-- The code of the branch. -/
def instrs (S : Site c p k kind pos pipe body orElse) : List Instr := S.steps.instrs.map S.stitch

/-- The offset at which the branch starts. -/
def start (S : Site c p k kind pos pipe body orElse) : Nat := S.visit.start

/-- The offset right behind the branch. -/
def stop (S : Site c p k kind pos pipe body orElse) : Nat := S.visit.start + S.instrs.length

/-- The code of the body. -/
def taken (S : Site c p k kind pos pipe body orElse) : List Instr := S.steps.taken.instrs.map S.stitch

/-- The code of the alternative, if there is any. -/
def other (S : Site c p k kind pos pipe body orElse) : Option (List Instr) :=
  S.steps.other.map fun g => g.instrs.map S.stitch

/-- What the body of the branch does. -/
def runTaken (S : Site c p k kind pos pipe body orElse) : Effect := p.env.Runs S.taken

/-- What the alternative of the branch does, which is nothing if there is none. -/
def runOther (S : Site c p k kind pos pipe body orElse) : Effect := p.env.Runs (S.other.getD [])

/-- Stitching replaces nothing but calls. -/
theorem fixes (S : Site c p k kind pos pipe body orElse) (i : Instr)
    (hnot : ∀ ns index, i ≠ .template ns index) : S.stitch i = i := (S.stitches i).of_ne hnot

/-- The code of the alternative in the stitched program. -/
theorem getD_other (S : Site c p k kind pos pipe body orElse) :
    S.other.getD [] = S.steps.otherInstrs.map S.stitch := by
  rw [other, BranchSteps.otherInstrs]
  cases S.steps.other <;> rfl

/-- The code of the branch is that of its condition and of its bodies. -/
theorem instrs_eq (S : Site c p k kind pos pipe body orElse) :
    S.instrs = Fragment.holdCode S.steps.pop ++ S.condition ++
      branchCode kind pipe.assign S.decl S.steps.pop S.taken S.other := by
  have hhold : (Fragment.holdCode S.steps.pop).map S.stitch = Fragment.holdCode S.steps.pop := by
    rcases S.steps.pop with _ | _ | n <;> simp [Fragment.holdCode, S.fixes]
  rw [instrs, BranchSteps.instrs]
  simp only [List.map_append, hhold, map_straight S.fixes S.steps.emits_condition.straight,
    map_branchCode S.fixes, Option.map_map]
  rfl

/-- The branch has an index for each of its variables. -/
theorem length_decl (S : Site c p k kind pos pipe body orElse) : S.decl.length = pipe.decl.length :=
  ((ensures_internAll pipe.decl).of_ok S.steps.compiled_decl).2.1

/-- What is known about the parts of a branch in the program of a well-formed set. -/
structure Sound (S : Site c p k kind pos pipe body orElse) : Prop where
  straight : Straight S.condition
  leaves : Leaves S.condition 0 1
  balances : Fragment.Balances S.steps.pop S.condition
  closed_taken : Closed S.taken
  closed_other : Closed (S.other.getD [])
  neutral_taken : S.runTaken.Neutral []
  neutral_other : S.runOther.Neutral []
  length_decl : S.decl.length ≤ kind.vars

/-- What is known about the scopes of such a branch: it leaves the variables of its condition behind. -/
structure Scoped (S : Site c p k kind pos pipe body orElse) : Prop where
  lexical : Lexical S.instrs (declaredBy S.condition)
  binds : Binds p.tables S.condition pipe.innerBindings

variable {S : Site c p k kind pos pipe body orElse}

/-- No jump leads out of the branch. -/
theorem Sound.closed (hS : S.Sound) : Closed S.instrs := by
  rw [S.instrs_eq]
  exact ((Env.closed_holdCode S.steps.pop).append hS.straight.closed).append
    (closed_branchCode kind pipe.assign S.decl S.steps.pop hS.closed_taken hS.closed_other)

/-- A run that gets to the branch runs it and goes on right behind it. -/
theorem Sound.runsFrom_start (hS : S.Sound) :
    p.RunsFrom c.name S.template S.start =
      (p.env.Runs S.instrs).andThen (p.RunsFrom c.name S.template S.stop) := by
  rw [Program.runsFrom_eq, Program.runsFrom_eq]
  exact Env.runsFrom_inside p.env S.front S.rest S.start S.stop hS.closed S.code_eq
    S.length_front.symm rfl

/-- The branch evaluates its condition and does what the value selects. -/
theorem Sound.runs_instrs (hS : S.Sound) :
    p.env.Runs S.instrs = Effect.evaluate p.schema p.tables S.condition
      (Effect.branch p.tables kind pipe.assign S.decl S.runTaken S.runOther) := by
  rw [S.instrs_eq]
  funext m o
  apply propext
  refine Env.runs_branch hS.straight hS.leaves Nat.one_pos hS.balances ?_ hS.closed_taken
    hS.neutral_taken hS.closed_other hS.neutral_other
  have hdecl := hS.length_decl
  cases kind <;> exact hdecl

/-- Once the condition has been run, the branch does what its value selects, on the stacks that there
were before. -/
theorem Sound.runsFrom_of_condition (hS : S.Sound) (hcondition : p.env.Runs S.condition m (.done l))
    (hstack : l.stack = v :: stack) :
    p.RunsFrom c.name S.template S.start m o ↔
      (Effect.branch p.tables kind pipe.assign S.decl S.runTaken S.runOther v).andThen
        (p.RunsFrom c.name S.template S.stop) (l.within m.frame) o := by
  rw [hS.runsFrom_start, hS.runs_instrs]
  apply Effect.andThen_congr_left
  intro r
  have hsteps := (Env.runs_straight p.env hS.straight).mp hcondition
  rw [← Machine.bare_above_frame m, Machine.steps_above hS.straight hS.leaves (Nat.zero_le _), eq_comm,
    Outcome.map_eq_done_iff] at hsteps
  obtain ⟨l₀, hsteps, rfl⟩ := hsteps
  have hlength := Machine.le_length_steps hS.straight hS.leaves (Nat.zero_le _) hsteps
  obtain ⟨v', stack', hstack'⟩ : ∃ v' stack', l₀.stack = v' :: stack' :=
    List.exists_cons_of_length_pos (by simp at hlength; omega)
  have hv : v' = v := by
    rw [Machine.stack_above, hstack', List.cons_append, List.cons.injEq] at hstack
    exact hstack.1
  rw [hv] at hstack'
  have hsteps : m.bare.steps p.schema p.tables S.condition = .done l₀ := hsteps
  simp only [Effect.evaluate, hsteps, hstack', List.head?_cons, Option.some.injEq, exists_eq_left']
  exact Iff.rfl

/-! ### The sites of a well-formed set -/

/-- What is known about a site in the program of a well-formed set, told for the program before it has
been stitched. -/
structure Stitched (S : Site c p k kind pos pipe body orElse) (q : Program) (φ : Instr → Instr) :
    Prop where
  wellFormed : (Node.branch kind pos pipe body orElse).wellFormed
  before : S.visit.before.tables.Sound
  steps : S.steps.Sound
  extends_ : S.after.tables.Extends q.tables
  agrees : ∀ i ∈ S.steps.instrs, S.stitch i = φ i

/-- The steps at a site are those that the branch has been compiled in, and its calls have been replaced as
everywhere in its template, because its code is at the offset of the visit. -/
theorem stitched {φ : String → Instr → Instr} {u : CompiledTemplate} {ns : List Node}
    {visits : List Visit} (S : Site c p k kind pos pipe body orElse) (hφ : q.IsStitching p φ)
    (hu : q.templates[c.name]? = some u) (hvisits : Visits c ns visits q.tables u.code.toList)
    (hvisit : S.visit ∈ visits) : S.Stitched q (φ c.name) := by
  obtain ⟨hwf, hs, hprint, result, after, code, hrun, hextends, hcode, front, rest, hwhole, hfront⟩ :=
    hvisits.placed S.visit hvisit
  obtain ⟨rfl, rfl⟩ := Prod.mk.inj (Except.ok.inj (hrun.symm.trans S.compiled))
  rw [S.node_eq] at hwf hrun
  obtain ⟨B, hB, -⟩ := exists_branchSteps hrun hwf hs hprint
  obtain ⟨-, hsame⟩ := B.unique S.steps
  obtain rfl := eq_of_heq hsame
  obtain rfl : code = S.steps.instrs := List.append_cancel_left (hcode.symm.trans S.instrs_result)
  refine ⟨hwf, hs, hB, hextends, ?_⟩
  have htemplate := S.found
  rw [hφ.templates, hu, Option.map_some, Option.some.injEq] at htemplate
  have hplace := S.code_eq
  rw [← htemplate, Array.toList_map, hwhole, List.map_append, List.map_append, List.append_assoc,
    List.append_assoc] at hplace
  obtain ⟨-, hplace⟩ := List.append_inj hplace (by rw [List.length_map, hfront, S.length_front])
  obtain ⟨hplace, -⟩ := List.append_inj hplace (by rw [List.length_map, List.length_map])
  exact fun i hi => (List.map_inj_left.mp hplace i hi).symm

namespace Stitched

variable {φ : String → Instr → Instr} (h : S.Stitched q (φ c.name))
include h

/-- The bodies of a branch are parts of its code, so their calls have been replaced in the same way. -/
theorem map_eq {n : Nat} {code : List Instr} (hcode : CodeAt n code
      (layout kind S.steps.held pipe.assign S.steps.decl
        ⟨S.steps.taken, S.steps.other, S.steps.pop⟩).instrs) :
    code.map S.stitch = code.map (φ c.name) := by
  rw [h.steps.instrs_layout] at hcode
  exact List.map_congr_left fun i hi => h.agrees i (hcode.subset hi)

/-- The code of the body is what stitching makes of it. -/
theorem taken_eq : S.taken = S.steps.taken.instrs.map (φ c.name) :=
  h.map_eq (codeAt_body kind S.steps.held pipe.assign S.steps.decl
    ⟨S.steps.taken, S.steps.other, S.steps.pop⟩)

/-- The code of the alternative is what stitching makes of it. -/
theorem other_eq : S.other.getD [] = S.steps.otherInstrs.map (φ c.name) := by
  rw [S.getD_other, BranchSteps.otherInstrs, getD_map_instrs]
  exact h.map_eq (codeAt_other kind S.steps.held pipe.assign S.steps.decl
    ⟨S.steps.taken, S.steps.other, S.steps.pop⟩)

/-- A branch of a well-formed set has no more variables than its kind may have. -/
theorem length_decl_le : pipe.decl.length ≤ kind.vars := by
  have hwf := h.wellFormed
  simp only [Node.wellFormed, Bool.and_eq_true] at hwf
  exact decl_of_wellFormed hwf.1.1

/-- The parts of a branch are sound in the stitched program. -/
theorem sound_site (hφ : q.IsStitching p φ) (hq : q.Behaves c.set) : S.Sound := by
  have hB := h.steps
  have hclosed {code : List Instr} (hcode : Closed code) : Closed (code.map (φ c.name)) :=
    closed_map (hφ.fixes c.name)
      (fun ns index => (hφ.stitches c.name (.template ns index)).distance?) hcode
  have hneutral {code : List Instr} (hcode : Stencil.Behaves c.set q.tables code []) :
      (p.env.Runs (code.map (φ c.name))).Neutral [] := by
    rw [hφ.runs_map hq hcode]
    exact hcode.neutral q.env (.refl _) (Program.callsNeutral_env hq)
  exact {
    straight := hB.emits.straight
    leaves := hB.leaves
    balances := hB.balances
    closed_taken := h.taken_eq ▸ hclosed hB.statement_taken.closed
    closed_other := h.other_eq ▸ hclosed hB.statement_other.closed
    neutral_taken := by
      rw [runTaken, h.taken_eq]
      exact hneutral (hB.statement_taken.toBehaves.mono (hB.extends_taken.trans h.extends_))
    neutral_other := by
      rw [runOther, h.other_eq]
      exact hneutral (hB.statement_other.toBehaves.mono (hB.grows.extends_.trans h.extends_))
    length_decl := S.length_decl ▸ h.length_decl_le }

/-- The bodies of a branch remove the variables that they declare, also in the stitched program. -/
theorem scoped_site (hφ : q.IsStitching p φ) : S.Scoped := by
  have hreplacing : Instr.Replacing (φ c.name) := Program.replacing_of_stitches (hφ.stitches c.name)
  have hcondition := yields_condition_emitsBindings pipe _ _ S.steps.compiled_condition
  have hwf := h.wellFormed
  simp only [Node.wellFormed, Bool.and_eq_true] at hwf
  have htaken : Lexical S.taken [] := by
    rw [h.taken_eq]
    exact (S.steps.writes_taken.lexical (Node.allBindElements_of_wellFormed body.nodes hwf.1.2)).map
      hreplacing
  have hother : Lexical (S.other.getD []) [] := by
    rw [h.other_eq]
    exact (S.steps.writes_other.lexical (Node.elseBindsElements_of_wellFormed orElse hwf.2)).map
      hreplacing
  refine ⟨?_, ?_⟩
  · have hdecl (hkind : kind = .range) : S.decl.length ≤ 2 := by
      have hle := h.length_decl_le
      rw [S.length_decl]
      rwa [hkind] at hle
    have hbranch := lexical_branchCode kind pipe.assign S.decl S.steps.pop hdecl htaken hother
    have hheader := (lexical_holdCode S.steps.pop).append h.steps.emits.straight.lexical
    have hwhole := hheader.append hbranch
    rw [List.append_nil] at hwhole
    rw [S.instrs_eq]
    exact hwhole
  · rw [hφ.tables]
    exact (hcondition.2 h.before).mono (h.steps.extends_condition.trans h.extends_)

end Stitched

end Site

section

variable {schema : Schema} {registry : Registry} {options : CompileOptions} {set : TemplateSet}
  {p : Program} {name : String} {tree : Tree} {k : Nat} {kind : BranchKind} {pos : Pos}
  {pipe : Pipeline} {body : Block Node} {orElse : Option (Block Node)}

/-- Every branch of a well-formed set has a site. -/
theorem nonempty_site (hwf : set.wellFormed) (hcompile : compile schema registry options set = .ok p)
    (htree : set.get? name = some tree)
    (hnode : (Node.allInside tree.root.nodes)[k]? = some (.branch kind pos pipe body orElse)) :
    Nonempty (Site ⟨set, registry, options, schema, name, tree.source⟩ p k kind pos pipe body orElse) := by
  obtain ⟨q, φ, hadd, -, hφ⟩ := exists_compiled hwf hcompile
  obtain ⟨u, hu, hvisits⟩ := visits_of_addTemplates hwf hadd htree
  rw [← hvisits.nodes, List.getElem?_map, Option.map_eq_some_iff] at hnode
  obtain ⟨V, hvisited, hV⟩ := hnode
  obtain ⟨hwf', hs, hprint, result, after, code, hrun, hextends, hcode, front, rest, hwhole, hfront⟩ :=
    hvisits.placed V (List.mem_of_getElem? hvisited)
  have hbranch := hrun
  rw [hV] at hbranch hwf'
  obtain ⟨B, -, hresult⟩ := exists_branchSteps hbranch hwf' hs hprint
  obtain rfl : code = B.instrs := List.append_cancel_left (hcode.symm.trans hresult)
  exact ⟨{
    visit := V
    result := result
    after := after
    steps := B
    template := { u with code := u.code.map (φ name) }
    front := front.map (φ name)
    rest := rest.map (φ name)
    stitch := φ name
    visited := hvisited
    node_eq := hV
    compiled := hrun
    instrs_result := hresult
    extends_ := hφ.tables ▸ hextends
    found := by rw [hφ.templates, hu, Option.map_some]
    length_front := by rw [List.length_map, hfront]
    code_eq := by rw [Array.toList_map, hwhole, List.map_append, List.map_append]
    stitches := hφ.stitches_stitched name }⟩

/-- The sites of a well-formed set are sound and scoped. -/
theorem Site.sound_scoped (hwf : set.wellFormed)
    (hcompile : compile schema registry options set = .ok p) (htree : set.get? name = some tree)
    (S : Site ⟨set, registry, options, schema, name, tree.source⟩ p k kind pos pipe body orElse) :
    S.Sound ∧ S.Scoped := by
  obtain ⟨q, φ, hadd, hq, hφ⟩ := exists_compiled hwf hcompile
  obtain ⟨u, hu, hvisits⟩ := visits_of_addTemplates hwf hadd htree
  have hstitched := S.stitched hφ hu hvisits (List.mem_of_getElem? S.visited)
  exact ⟨hstitched.sound_site hφ hq.behaves, hstitched.scoped_site hφ⟩

end

end Compile

/-- Two equal ranges, each with an alternative and a conditional in its body. -/
def Sample.rows : TemplateSet := .ofRoot ⟨"main", ⟨0, [Sample.row, Sample.row]⟩, none⟩

-- The first and the sixth node are the ranges; each has its own code.
example : (Sample.rows.visits .plain .empty .standard "main").map Compile.Visit.start =
    [0, 8, 10, 14, 21, 23, 31, 33, 37, 44] := by decide +kernel

end Stencil
