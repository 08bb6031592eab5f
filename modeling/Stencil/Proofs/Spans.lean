import Stencil.Compile
import Stencil.Proofs.Layout
import Stencil.Proofs.Straight

/-!
# Spans of operands

Which instructions of a template have been emitted for which operand. An operand is compiled behind the
code in front of it, so the instructions that are its own are those between two offsets: all that it
adds, or what it adds behind the operand inside it. The operands of a pipeline that is folded, or whose
constant is written as text, have no instructions left.
-/

namespace Stencil

/-- The instructions from one offset up to another one, which have been emitted for the operand at `pos`
itself and not for one inside it. -/
structure Span where
  start : Nat
  stop : Nat
  pos : Pos
deriving DecidableEq

/-- The span of the same instructions after `n` others have been put in front of them. -/
def Span.shift (n : Nat) (a : Span) : Span := ⟨a.start + n, a.stop + n, a.pos⟩

namespace Compile

/-- What is listed after a step of compilation, nothing if the step fails. -/
def listAfter {α β : Type} (x : M α) (s : State) (next : α → State → List β) : List β :=
  match x s with
  | .ok (a, s') => next a s'
  | .error _ => []

/-- What comes after a step that succeeds comes after its result. -/
theorem listAfter_of_ok {α β : Type} {x : M α} {s s' : State} {a : α} (h : x s = .ok (a, s'))
    (next : α → State → List β) : listAfter x s next = next a s' := by
  rw [listAfter, h]

end Compile

open Compile

mutual

/-- The spans of an operand and of those inside it. -/
def Operand.spans (c : Context) (argc : Nat) (f : Fragment) (s : State) : Operand → List Span
  | .chain pos inner path =>
    inner.spans c 0 f s ++ listAfter (operand c 0 f inner) s fun g s =>
      listAfter (fields c pos argc g path) s fun f' _ => [⟨g.size, f'.size, pos⟩]
  | .paren p => (p.spans c s).map (Span.shift f.size)
  | a => listAfter (operand c argc f a) s fun f' _ => [⟨f.size, f'.size, a.pos⟩]

/-- The spans of operands, which are compiled from the last to the first. -/
def Operand.allSpans (c : Context) (argc : Nat) (f : Fragment) (s : State) :
    List Operand → List Span
  | [] => []
  | a :: rest =>
    Operand.allSpans c 0 f s rest ++ listAfter (operands c 0 f rest) s fun f s => a.spans c argc f s

/-- The spans of the operands of a command. -/
def Command.spans (c : Context) (chained : Bool) (f : Fragment) (s : State) : Command → List Span
  | .mk _ args => Operand.allSpans c (args.length - 1 + chained.toNat) f s args

/-- The spans of the operands of commands. -/
def Command.allSpans (c : Context) (chained : Bool) (f : Fragment) (s : State) :
    List Command → List Span
  | [] => []
  | cmd :: rest =>
    cmd.spans c chained f s ++ listAfter (command c chained f cmd) s fun f s =>
      Command.allSpans c true f s rest

/-- The spans of the operands of a pipeline, which folding drops. -/
def Pipeline.spans (c : Context) (s : State) : Pipeline → List Span
  | .mk pos _ _ cmds =>
    listAfter (commands c false .empty cmds) s fun body s₁ => listAfter (fold c pos body) s₁ fun g _ =>
      if g = body then Command.allSpans c false .empty s cmds else []

end

namespace Compile

/-- The spans of code after it has been balanced, which may have put a `MARK` in front of it. -/
def heldSpans (g : Fragment) (spans : List Span) : List Span :=
  match g.balance with
  | .ok b => spans.map (Span.shift (b.takePop.1.size - g.size))
  | .error _ => []

/-- The number of instructions between the condition of a branch and its body. -/
def bodyStart (kind : BranchKind) (decl : List Nat) (hasElse : Bool) : Nat :=
  match kind with
  | .ifThen => 1 + min decl.length 1
  | .withDot => 2 + min decl.length 1
  | .range => (if hasElse then 4 else 2) + 1 + if decl.isEmpty then 1 else 2

end Compile

mutual

/-- The spans of the operands in a node. -/
def Node.spans (c : Context) (f : Fragment) (s : State) : Node → List Span
  | .list ⟨_, ns⟩ => Node.allSpans c f s ns
  | .action _ pipe =>
    listAfter (pipeline c true pipe) s fun g s₁ =>
      let g := if pipe.decl.isEmpty && !s₁.noPrint then g.push .print else g
      if (printedConstant? c s₁.tables g.code).isSome then []
      else (heldSpans g (pipe.spans c s)).map (Span.shift f.size)
  | .branch kind pos pipe ⟨bodyPos, ns⟩ orElse =>
    listAfter (pipeline c false pipe) s fun condition s₁ =>
      listAfter (inScope (return (← nodes c .empty ns).mark bodyPos)) s₁ fun taken s₂ =>
        listAfter (alternative c orElse) s₂ fun other s₃ =>
          listAfter (balanced c pos condition) s₃ fun b s₄ =>
            listAfter (internAll c pipe.decl) s₄ fun decl _ =>
              let (held, pop) := b.takePop
              let whole := layout kind held pipe.assign decl ⟨taken, other, pop⟩
              let behind := (popCode pop).length + (other.getD .empty).size
              (heldSpans condition (pipe.spans c s) ++
                (Node.allSpans c .empty { s₁ with declared := [] } ns).map
                  (Span.shift (held.size + bodyStart kind decl other.isSome)) ++
                (Node.elseSpans c s₂ orElse).map (Span.shift (whole.size - behind))).map
                  (Span.shift f.size)
  | .template _ _ (some pipe) =>
    listAfter (pipeline c true pipe) s fun g _ =>
      (heldSpans g (pipe.spans c s)).map (Span.shift f.size)
  | _ => []

/-- The spans of the operands in nodes. -/
def Node.allSpans (c : Context) (f : Fragment) (s : State) : List Node → List Span
  | [] => []
  | n :: rest => n.spans c f s ++ listAfter (node c f n) s fun f s => Node.allSpans c f s rest

/-- The spans of the operands in an alternative. -/
def Node.elseSpans (c : Context) (s : State) : Option (Block Node) → List Span
  | none => []
  | some ⟨_, ns⟩ => Node.allSpans c .empty { s with declared := [] } ns

end

namespace TemplateSet

/-- The spans of the operands in the template of a name, while templates are compiled and added to a
program. -/
def spansFrom (set : TemplateSet) (registry : Registry) (options : CompileOptions) (p : Program)
    (name : String) : List (String × Tree) → List Span
  | [] => []
  | (caller, tree) :: rest =>
    if caller = name then
      Node.allSpans ⟨set, registry, options, p.schema, caller, tree.source⟩ .empty
        ⟨p.tables, false, []⟩ tree.root.nodes
    else
      match addTemplate set registry options p caller tree with
      | .ok p => spansFrom set registry options p name rest
      | .error _ => []

/-- The spans of the operands in a template of a set. -/
def spans (set : TemplateSet) (schema : Schema) (registry : Registry) (options : CompileOptions)
    (name : String) : List Span :=
  set.spansFrom registry options ⟨schema, .initial, .empty, set.root⟩ name set.toList

end TemplateSet

/-! ### Fragments behind each other -/

namespace Fragment

variable {f f' f'' g : Fragment} {a : Span} {pc : Nat} {spans more : List Span}

/-- A mark is a fragment without code. -/
theorem mark_eq_append (f : Fragment) (pos : Pos) : f.mark pos = f.append ⟨#[], #[⟨0, pos⟩]⟩ := by
  simp [mark, append, Mark.shift]

/-- An instruction is put in front as code of its own without marks. -/
theorem prepend_eq_append (f : Fragment) (i : Instr) : f.prepend i = (ofCode #[i]).append f := by
  simp [prepend, append, ofCode]

/-- Codes without marks can be put together before or after. -/
theorem ofCode_append (code rest : Array Instr) :
    ofCode (code ++ rest) = (ofCode code).append (ofCode rest) := by
  simp [append, ofCode]

/-- Whether the entries of the table of a fragment are in order and inside the fragment. -/
structure Tidy (f : Fragment) : Prop where
  bounded : ∀ m ∈ f.marks, m.pc ≤ f.size
  sorted : f.marks.toList.Pairwise (·.pc ≤ ·.pc)

/-- Code without marks is tidy. -/
theorem tidy_ofCode (code : Array Instr) : (ofCode code).Tidy :=
  ⟨fun _ hm => by simp [ofCode] at hm, by simp [ofCode]⟩

/-- Tidy fragments are tidy behind each other. -/
theorem Tidy.append (hf : f.Tidy) (hg : g.Tidy) : (f.append g).Tidy := by
  have hshifted : ∀ m ∈ g.marks.map (Mark.shift f.code.size), f.size ≤ m.pc ∧ m.pc ≤ f.size + g.size := by
    intro m hm
    obtain ⟨m', hm', rfl⟩ := Array.mem_map.mp hm
    have hle := hg.bounded m' hm'
    simp only [Mark.shift, size] at hle ⊢
    omega
  constructor
  · intro m hm
    rw [size_append]
    rcases Array.mem_append.mp hm with hm | hm
    · have hle := hf.bounded m hm
      omega
    · exact (hshifted m hm).2
  · have hmarks : (f.append g).marks.toList =
        f.marks.toList ++ g.marks.toList.map (Mark.shift f.code.size) := by
      simp [Fragment.append]
    rw [hmarks, List.pairwise_append]
    refine ⟨hf.sorted, List.pairwise_map.mpr (hg.sorted.imp fun h => Nat.add_le_add_right h _), ?_⟩
    intro m hm m' hm'
    have hm' : m' ∈ g.marks.map (Mark.shift f.code.size) := by simpa using hm'
    exact Nat.le_trans (hf.bounded m (Array.mem_def.mpr hm)) (hshifted m' hm').1

/-- A mark alone is tidy. -/
theorem tidy_mark (pos : Pos) : (⟨#[], #[⟨0, pos⟩]⟩ : Fragment).Tidy :=
  ⟨fun m hm => by simp at hm; simp [hm, size], by simp⟩

/-- Whether the instruction at an offset of a span belongs to a straight-line piece of code that the next
entry of the table behind it assigns to the operand of the span, where only the first instruction of the
span may be at the offset of an entry itself. -/
structure Locates (f : Fragment) (a : Span) (pc : Nat) : Prop where
  instr : ∃ i, f.code[pc]? = some i ∧ i.isStraight
  next : (f.marks.find? fun m => pc < m.pc).map Mark.pos = some a.pos
  alone : a.start < pc → ∀ m ∈ f.marks, m.pc ≠ pc

/-- Whether the instructions of a span are located. -/
def Attributes (f : Fragment) (a : Span) : Prop :=
  ∀ pc, a.start ≤ pc → pc < a.stop → f.Locates a pc

/-- An instruction that is located is inside its fragment. -/
theorem Locates.lt_size (h : f.Locates a pc) : pc < f.size := by
  obtain ⟨i, hi, -⟩ := h.instr
  exact (Array.getElem?_eq_some_iff.mp hi).1

/-- Code that is added behind changes nothing. -/
theorem Locates.append (h : f.Locates a pc) (g : Fragment) : (f.append g).Locates a pc where
  instr := by
    obtain ⟨i, hi, hstraight⟩ := h.instr
    refine ⟨i, ?_, hstraight⟩
    rw [Fragment.append, Array.getElem?_append_left h.lt_size, hi]
  next := by
    obtain ⟨m, hfind, hpos⟩ := Option.map_eq_some_iff.mp h.next
    simp [Fragment.append, Array.find?_append, hfind, hpos]
  alone hlt m hm := by
    rcases Array.mem_append.mp hm with hm | hm
    · exact h.alone hlt m hm
    · obtain ⟨m', -, rfl⟩ := Array.mem_map.mp hm
      have := h.lt_size
      simp only [Mark.shift, size] at this ⊢
      omega

/-- Code in front moves the span with its instructions. -/
theorem Locates.behind (h : g.Locates a pc) (hf : f.Tidy) :
    (f.append g).Locates (a.shift f.size) (pc + f.size) where
  instr := by
    obtain ⟨i, hi, hstraight⟩ := h.instr
    refine ⟨i, ?_, hstraight⟩
    have hright : (f.code ++ g.code)[pc + f.code.size]? = g.code[pc]? := by
      rw [Array.getElem?_append_right (Nat.le_add_left _ _), Nat.add_sub_cancel]
    exact hright.trans hi
  next := by
    have hfront : f.marks.find? (fun m => decide (pc + f.size < m.pc)) = none := by
      rw [Array.find?_eq_none]
      intro m hm
      have := hf.bounded m hm
      simp
      omega
    have hshift : (fun m : Mark => decide (pc + f.size < m.pc)) ∘ Mark.shift f.code.size =
        fun m => decide (pc < m.pc) := by
      funext m
      simp [Mark.shift, size]
    have hnext := h.next
    simp only [Fragment.append, Array.find?_append, hfront, Option.none_or, Array.find?_map, hshift,
      Option.map_map]
    exact hnext
  alone hlt m hm := by
    simp only [Span.shift] at hlt
    rcases Array.mem_append.mp hm with hm | hm
    · have := hf.bounded m hm
      omega
    · obtain ⟨m', hm', rfl⟩ := Array.mem_map.mp hm
      have := h.alone (by omega) m' hm'
      simp only [Mark.shift, size]
      omega

/-- Code behind a fragment changes nothing in what is attributed inside it. -/
theorem Attributes.append (h : f.Attributes a) (g : Fragment) : (f.append g).Attributes a :=
  fun pc hstart hstop => (h pc hstart hstop).append g

/-- Code in front of a fragment shifts what is attributed inside it. -/
theorem Attributes.behind (h : g.Attributes a) (hf : f.Tidy) :
    (f.append g).Attributes (a.shift f.size) := by
  intro pc hstart hstop
  simp only [Span.shift] at hstart hstop
  have hlocates := (h (pc - f.size) (by omega) (by omega)).behind hf
  rwa [Nat.sub_add_cancel (by omega)] at hlocates

/-- The instructions that an operand adds belong to the operand. -/
theorem attributes_mark (hf : f.Tidy) {code : Array Instr} (hstraight : Straight code.toList)
    (pos : Pos) :
    ((f.append (ofCode code)).mark pos).Attributes ⟨f.size, (f.append (ofCode code)).size, pos⟩ := by
  intro pc (hstart : f.size ≤ pc) (hstop : pc < (f.append (ofCode code)).size)
  have hmarks : ((f.append (ofCode code)).mark pos).marks =
      f.marks.push ⟨(f.append (ofCode code)).size, pos⟩ := by
    simp [mark, Fragment.append, ofCode, size]
  constructor
  · have hlt : pc - f.size < code.size := by
      have hsize : (f.append (ofCode code)).size = f.size + code.size := size_append f (ofCode code)
      omega
    refine ⟨code[pc - f.size], ?_, hstraight _ (by simp)⟩
    have hright : (f.code ++ code)[pc]? = code[pc - f.code.size]? := Array.getElem?_append_right hstart
    exact hright.trans (Array.getElem?_eq_getElem hlt)
  · have hfront : f.marks.find? (fun m => decide (pc < m.pc)) = none := by
      rw [Array.find?_eq_none]
      intro m hm
      have hle := hf.bounded m hm
      rw [decide_eq_true_eq]
      omega
    rw [hmarks, Array.find?_push, hfront]
    simpa using hstop
  · intro (hlater : f.size < pc) m hm
    rw [hmarks, Array.mem_push] at hm
    rcases hm with hm | rfl
    · exact Nat.ne_of_lt (Nat.lt_of_le_of_lt (hf.bounded m hm) hlater)
    · exact Nat.ne_of_gt hstop

/-! ### Code around fragments -/

/-- Whether a fragment is another one with code around it, of which so many instructions are in front. -/
def Surrounds (front : Nat) (inner outer : Fragment) : Prop :=
  ∃ before rest : Array Instr, outer = ((ofCode before).append inner).append (ofCode rest) ∧
    before.size = front

variable {inner outer : Fragment} {front : Nat}

/-- A fragment surrounds itself. -/
theorem surrounds_refl (f : Fragment) : Surrounds 0 f f := by
  refine ⟨#[], #[], ?_, rfl⟩
  have hempty : ofCode #[] = empty := rfl
  rw [hempty, empty_append, append_empty]

/-- Code behind a surrounding fragment surrounds as well. -/
theorem Surrounds.append (h : Surrounds front inner outer) (code : Array Instr) :
    Surrounds front inner (outer.append (ofCode code)) := by
  obtain ⟨before, rest, rfl, hfront⟩ := h
  exact ⟨before, rest ++ code, by rw [append_assoc, ofCode_append], hfront⟩

/-- An instruction behind a surrounding fragment surrounds as well. -/
theorem Surrounds.push (h : Surrounds front inner outer) (i : Instr) :
    Surrounds front inner (outer.push i) := by
  rw [push_eq_append]
  exact h.append #[i]

/-- An instruction in front of a surrounding fragment surrounds as well, one further off. -/
theorem Surrounds.prepend (h : Surrounds front inner outer) (i : Instr) :
    Surrounds (front + 1) inner (outer.prepend i) := by
  obtain ⟨before, rest, rfl, hfront⟩ := h
  refine ⟨#[i] ++ before, rest, ?_, ?_⟩
  · rw [prepend_eq_append, ofCode_append, append_assoc, append_assoc, append_assoc]
  · rw [Array.size_append, hfront]
    exact Nat.add_comm 1 front

/-- A `POP` that may be missing is code without marks. -/
theorem addPop_eq_append (f : Fragment) (pop : Option Nat) :
    f.addPop pop = f.append (ofCode (popCode pop).toArray) := by
  cases pop with
  | none => exact (append_empty f).symm
  | some n => exact push_eq_append f (.pop n)

end Fragment

namespace Compile

open Fragment (Surrounds ofCode)

/-- Ending variables is code without marks. -/
theorem unsetAll_eq_append (f : Fragment) (names : List Nat) :
    unsetAll f names = f.append (ofCode (unsetCode names).toArray) := by
  induction names generalizing f with
  | nil => exact (Fragment.append_empty f).symm
  | cons name names ih =>
    have hcode : (unsetCode (name :: names)).toArray =
        #[.unsetVar name] ++ (unsetCode names).toArray := by
      simp [unsetCode]
    rw [hcode, Fragment.ofCode_append, ← Fragment.append_assoc, ← Fragment.push_eq_append]
    exact ih (f.push (.unsetVar name))

/-- A bound condition surrounds its body, behind the instruction that binds it. -/
theorem surrounds_bindCondition (assign : Bool) (decl : List Nat) (parts : BranchParts) :
    Surrounds (min decl.length 1) parts.body (bindCondition assign decl parts).body := by
  cases decl with
  | nil => exact Fragment.surrounds_refl _
  | cons name names =>
    have hbound := (Fragment.surrounds_refl parts.body).prepend (.setVar name assign)
    have hlength : min (name :: names).length 1 = 0 + 1 := by
      rw [List.length_cons]
      omega
    rw [hlength]
    simp only [bindCondition, Fragment.addPop_eq_append]
    cases assign
    · exact (hbound.push _).append _
    · exact hbound.append _

/-- A turn of a loop surrounds its body, behind the instructions that bind the element. -/
theorem surrounds_loopBody (assign : Bool) (decl : List Nat) (body : Fragment) :
    Surrounds ((if decl.isEmpty then 1 else 2) + 1) body (loopBody assign decl body) := by
  have hinner : Surrounds 0 body ((if assign then body else unsetAll body decl).push .popDot) := by
    cases assign
    · simp only [Bool.false_eq_true, if_false, unsetAll_eq_append]
      exact ((Fragment.surrounds_refl body).append _).push _
    · exact (Fragment.surrounds_refl body).push _
  simp only [loopBody]
  generalize (if assign then body else unsetAll body decl).push .popDot = inner at hinner ⊢
  rcases decl with _ | ⟨key, _ | ⟨value, rest⟩⟩
  · exact ((hinner.prepend _).prepend _).push _
  · exact (((hinner.prepend _).prepend _).prepend _).push _
  · exact (((hinner.prepend _).prepend _).prepend _).push _

/-- The alternative of a conditional that binds a variable is in front of a `POP` of its own. -/
theorem orElse_bindCondition (assign : Bool) (decl : List Nat) (parts : BranchParts) :
    ∃ rest : Array Instr,
      ((bindCondition assign decl parts).orElse.getD .empty) =
        (parts.orElse.getD .empty).append (ofCode rest) ∧
      rest.size + (popCode (bindCondition assign decl parts).pop).length =
        (popCode parts.pop).length := by
  cases decl with
  | nil => exact ⟨#[], (Fragment.append_empty _).symm, Nat.zero_add _⟩
  | cons name names =>
    cases hpop : parts.pop with
    | none =>
      refine ⟨#[], ?_, by simp [bindCondition, popCode]⟩
      simp only [bindCondition, hpop, Option.isSome_none, Bool.false_eq_true, if_false]
      exact (Fragment.append_empty _).symm
    | some n =>
      refine ⟨#[.pop n], ?_, by simp [bindCondition, popCode]⟩
      simp only [bindCondition, hpop, Option.isSome_some, if_true, Option.getD_some]
      exact Fragment.push_eq_append _ _

/-- Behind the body of a branch there are its alternative and the final `POP`. -/
theorem closeBranch_eq (f : Fragment) (parts : BranchParts) : ∃ between : Array Instr,
    closeBranch f parts = ((f.append (ofCode between)).append (parts.orElse.getD .empty)).append
      (ofCode (popCode parts.pop).toArray) := by
  unfold closeBranch
  cases parts.orElse with
  | none =>
    refine ⟨#[], ?_⟩
    have hempty : ofCode #[] = .empty := rfl
    simp only [Option.getD_none, Fragment.append_empty, hempty]
    exact Fragment.addPop_eq_append f parts.pop
  | some g =>
    refine ⟨#[.jmp g.size], ?_⟩
    simp only [Option.getD_some, Fragment.addPop_eq_append, Fragment.push_eq_append]

/-- The parts of a branch lie behind each other in its layout, with code without a table around them. -/
theorem layout_eq (kind : BranchKind) (f : Fragment) (assign : Bool) (decl : List Nat)
    (parts : BranchParts) : ∃ before between rest : Array Instr,
      layout kind f assign decl parts =
        ((((f.append (ofCode before)).append parts.body).append (ofCode between)).append
          (parts.orElse.getD .empty)).append (ofCode rest) ∧
      before.size = bodyStart kind decl parts.orElse.isSome ∧
      rest.size = (popCode parts.pop).length := by
  obtain ⟨before, behind, hbody, hsize⟩ := surrounds_bindCondition assign decl parts
  obtain ⟨tail, horElse, htail⟩ := orElse_bindCondition assign decl parts
  have hlast : (tail ++ (popCode (bindCondition assign decl parts).pop).toArray).size =
      (popCode parts.pop).length := by
    simpa using htail
  cases kind with
  | ifThen =>
    obtain ⟨between, hclose⟩ := closeBranch_eq
      ((f.push (.jmpf (bindCondition assign decl parts).skip)).append
        (bindCondition assign decl parts).body)
      (bindCondition assign decl parts)
    refine ⟨#[.jmpf (bindCondition assign decl parts).skip] ++ before, behind ++ between, _, ?_, ?_,
      hlast⟩
    · rw [layout, layoutIf, hclose, hbody, horElse]
      simp only [Fragment.push_eq_append, Fragment.ofCode_append, Fragment.append_assoc]
    · simp [bodyStart, hsize]
  | withDot =>
    obtain ⟨between, hclose⟩ := closeBranch_eq
      ((((f.push (.jmpf ((bindCondition assign decl parts).skip + 2 : Nat))).push .pushDot).append
        (bindCondition assign decl parts).body).push .popDot)
      (bindCondition assign decl parts)
    refine ⟨#[.jmpf ((bindCondition assign decl parts).skip + 2 : Nat)] ++ #[.pushDot] ++ before,
      behind ++ #[.popDot] ++ between, _, ?_, ?_, hlast⟩
    · rw [layout, layoutWith, hclose, hbody, horElse]
      simp only [Fragment.push_eq_append, Fragment.ofCode_append, Fragment.append_assoc]
    · simp [bodyStart, hsize]
  | range =>
    obtain ⟨before, behind, hloop, hsize⟩ := surrounds_loopBody assign decl parts.body
    obtain ⟨entry, hentry, hentrySize⟩ : ∃ entry : Array Instr,
        layout .range f assign decl parts =
          closeBranch ((f.append (ofCode entry)).append (loopBody assign decl parts.body)) parts ∧
        entry.size = if parts.orElse.isSome then 4 else 2 := by
      let loop := loopBody assign decl parts.body
      cases horElse : parts.orElse with
      | none =>
        refine ⟨#[.iter] ++ #[.next loop.size], ?_, rfl⟩
        simp only [layout, layoutRange, horElse, Fragment.push_eq_append, Fragment.ofCode_append,
          Fragment.append_assoc, loop]
      | some g =>
        refine ⟨#[.iter] ++ #[.next (loop.size + 3 : Nat)] ++ #[.jmp 1] ++
          #[.next (loop.size + 1 + g.size : Nat)], ?_, rfl⟩
        simp only [layout, layoutRange, horElse, Fragment.push_eq_append, Fragment.ofCode_append,
          Fragment.append_assoc, loop]
    obtain ⟨between, hclose⟩ := closeBranch_eq
      ((f.append (ofCode entry)).append (loopBody assign decl parts.body)) parts
    refine ⟨entry ++ before, behind ++ between, (popCode parts.pop).toArray, ?_, ?_, by simp⟩
    · rw [hentry, hclose, hloop]
      simp only [Fragment.ofCode_append, Fragment.append_assoc]
    · simp only [bodyStart, Array.size_append, hentrySize, hsize]
      omega

end Compile
end Stencil
