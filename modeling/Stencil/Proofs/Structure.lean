import Stencil.Proofs.Templates

/-!
# The structure of compiled code

The code of a template is made of instructions that do not jump, of conditionals behind the code of
their condition, and of loops behind the `ITER` that starts their iterator. There are no other jumps, so
what holds of all such code follows by induction on its structure. This is so for every set that can be
compiled; if it is well-formed, each condition leaves a value for the jump behind it.
-/

namespace Stencil

mutual

/-- The templates that a node calls. -/
def Node.targets : Node → List String
  | .list ⟨_, nodes⟩ => Node.allTargets nodes
  | .branch _ _ _ ⟨_, nodes⟩ orElse => Node.allTargets nodes ++ Node.elseTargets orElse
  | .template _ name _ => [name]
  | _ => []

/-- The templates that nodes call. -/
def Node.allTargets : List Node → List String
  | [] => []
  | node :: rest => node.targets ++ Node.allTargets rest

/-- The templates that an alternative calls. -/
def Node.elseTargets : Option (Block Node) → List String
  | none => []
  | some ⟨_, nodes⟩ => Node.allTargets nodes

end

namespace Instr

/-- Whether an instruction goes on with the next one and starts no iterator. -/
def isPlain : Instr → Bool
  | iter | jmp _ | jmpf _ | jmpt _ | next _ => false
  | _ => true

/-- Whether an instruction calls no template but one of a set that has one of the given names. -/
def CallsIn (set : TemplateSet) (t : Tables) (targets : List String) : Instr → Prop
  | template _ index => ∃ target ∈ targets, set.contains target ∧ t.strings[index]? = some target
  | _ => True

variable {set : TemplateSet} {t t' : Tables} {targets more : List String} {i : Instr}

/-- A plain instruction does not jump. -/
theorem distance?_of_isPlain (hi : i.isPlain) : i.distance? = none := by
  cases i <;> first | rfl | cases hi

/-- A straight-line instruction is plain. -/
theorem isPlain_of_isStraight (hi : i.isStraight) : i.isPlain := by
  cases i <;> first | rfl | cases hi

/-- An instruction that is no call calls nothing. -/
theorem callsIn_of_not_template (hnot : ∀ ns index, i ≠ .template ns index) :
    i.CallsIn set t targets := by
  cases i <;> first | trivial | exact absurd rfl (hnot _ _)

/-- A quiet instruction calls nothing. -/
theorem callsIn_of_isQuiet (hi : i.isQuiet) : i.CallsIn set t targets :=
  callsIn_of_not_template fun _ _ h => by rw [h] at hi; cases hi

/-- Straight-line code calls no template. -/
theorem callsIn_of_straight {code : List Instr} (h : Straight code) :
    ∀ i ∈ code, i.CallsIn set t targets := by
  refine fun i hi => callsIn_of_not_template fun ns index heq => ?_
  have hstraight := h i hi
  rw [heq] at hstraight
  cases hstraight

/-- The targets of a call stay its targets when tables grow, and more may be named. -/
theorem CallsIn.mono (h : i.CallsIn set t targets) (hextends : t.Extends t') (hmore : targets ⊆ more) :
    i.CallsIn set t' more := by
  cases i with
  | template ns index =>
    obtain ⟨target, hmem, hcontains, hname⟩ := h
    exact ⟨target, hmore hmem, hcontains, hextends.strings _ _ hname⟩
  | _ => trivial

end Instr

open Compile (conditionalCode loopCode alternativeCode)

/-- Code that is put together from instructions that do not jump, conditionals and loops. If `guarded`
holds, the code of each condition leaves a value. -/
inductive Structured (guarded : Prop) : List Instr → Prop where
  | nil : Structured guarded []
  | instr {i : Instr} : i.isPlain → Structured guarded [i]
  | append {code rest : List Instr} : Structured guarded code → Structured guarded rest →
      Structured guarded (code ++ rest)
  | conditional {condition body : List Instr} {orElse : Option (List Instr)} : Straight condition →
      (guarded → Leaves condition 0 1) → Structured guarded body →
      Structured guarded (orElse.getD []) →
      Structured guarded (condition ++ conditionalCode body orElse)
  | range {body : List Instr} {orElse : Option (List Instr)} : Structured guarded body →
      Structured guarded (orElse.getD []) → Structured guarded (.iter :: loopCode body orElse)

namespace Structured

variable {guarded guarded' : Prop} {code rest body condition : List Instr}
  {orElse : Option (List Instr)} {i : Instr}

/-- A plain instruction in front of structured code is structured code. -/
theorem cons (hi : i.isPlain) (hcode : Structured guarded code) : Structured guarded (i :: code) :=
  append (instr hi) hcode

/-- Plain instructions are structured code. -/
theorem of_plain (h : ∀ i ∈ code, i.isPlain) : Structured guarded code := by
  induction code with
  | nil => exact nil
  | cons i code ih =>
    rw [List.forall_mem_cons] at h
    exact cons h.1 (ih h.2)

/-- Straight-line code is structured. -/
theorem of_straight (h : Straight code) : Structured guarded code :=
  of_plain fun i hi => Instr.isPlain_of_isStraight (h i hi)

/-- Structured code stays so if less is known about it. -/
theorem mono (h : Structured guarded code) (hguarded : guarded' → guarded) :
    Structured guarded' code := by
  induction h with
  | nil => exact nil
  | instr hi => exact instr hi
  | append _ _ ihcode ihrest => exact append ihcode ihrest
  | conditional hstraight hleaves _ _ ihbody ihother =>
    exact conditional hstraight (fun h => hleaves (hguarded h)) ihbody ihother
  | range _ _ ihbody ihother => exact range ihbody ihother

/-- Structured code is closed. -/
theorem closed (h : Structured guarded code) : Closed code := by
  induction h with
  | nil => exact closed_nil
  | instr hi => exact closed_cons (Instr.distance?_of_isPlain hi) closed_nil
  | append _ _ ihcode ihrest => exact ihcode.append ihrest
  | conditional hstraight _ _ _ ihbody ihother =>
    exact hstraight.closed.append (Compile.closed_conditionalCode ihbody ihother)
  | range _ _ ihbody ihother => exact closed_cons rfl (Compile.closed_loopCode ihbody ihother)

end Structured

/-! ### Replaced calls -/

section

variable {φ : Instr → Instr} {body code : List Instr} {orElse : Option (List Instr)} {guarded : Prop}

/-- Calls are replaced in an alternative that may be missing as they are in its code. -/
theorem getD_map_map (orElse : Option (List Instr)) :
    (orElse.map (List.map φ)).getD [] = (orElse.getD []).map φ := by
  cases orElse <;> rfl

/-- A replaced instruction is plain exactly if it has been before. -/
theorem Instr.Replacing.isPlain (hφ : Instr.Replacing φ) (i : Instr) : (φ i).isPlain = i.isPlain := by
  rcases hφ i with hsame | ⟨⟨ns, index, rfl⟩, chunk, hchunk⟩
  · rw [hsame]
  · rw [hchunk]
    rfl

/-- A replaced instruction calls nothing but the targets that it has called before. -/
theorem Instr.Replacing.callsIn (hφ : Instr.Replacing φ) {set : TemplateSet} {t : Tables}
    {targets : List String} {i : Instr}
    (h : i.CallsIn set t targets) : (φ i).CallsIn set t targets := by
  rcases hφ i with hsame | ⟨-, chunk, hchunk⟩
  · rwa [hsame]
  · rw [hchunk]
    trivial

/-- Replacing calls keeps the structure of code. -/
theorem Structured.map (h : Structured guarded code) (hφ : Instr.Replacing φ) :
    Structured guarded (code.map φ) := by
  induction h with
  | nil => exact nil
  | instr hi => exact instr ((hφ.isPlain _).trans hi)
  | append _ _ ihcode ihrest =>
    rw [List.map_append]
    exact append ihcode ihrest
  | conditional hstraight hleaves _ _ ihbody ihother =>
    rw [List.map_append, hstraight.map_replacing hφ, Compile.map_conditionalCode fun _ => hφ.fixes]
    exact conditional hstraight hleaves ihbody (by rwa [getD_map_map])
  | range _ _ ihbody ihother =>
    rw [List.map_cons, Compile.map_loopCode fun _ => hφ.fixes, hφ.fixes (i := .iter) nofun]
    exact range ihbody (by rwa [getD_map_map])

end

namespace Compile

/-- What holds back a `POP` is plain. -/
theorem isPlain_holdCode (pop : Option Nat) : ∀ i ∈ Fragment.holdCode pop, i.isPlain := by
  unfold Fragment.holdCode
  split <;> simp [Instr.isPlain]

/-- A `POP` that may be missing is plain. -/
theorem isPlain_popCode (pop : Option Nat) : ∀ i ∈ popCode pop, i.isPlain := by
  cases pop <;> simp [popCode, Instr.isPlain]

/-- Ending variables is plain. -/
theorem isPlain_unsetCode (names : List Nat) : ∀ i ∈ unsetCode names, i.isPlain := by
  simp [unsetCode, Instr.isPlain]

/-- Binding variables is plain. -/
theorem isPlain_bindCode (assign : Bool) (decl : List Nat) : ∀ i ∈ bindCode assign decl, i.isPlain := by
  rcases decl with _ | ⟨_, _ | ⟨_, _⟩⟩ <;> simp [bindCode, Instr.isPlain]

variable {guarded : Prop} {kind : BranchKind} {assign : Bool} {decl : List Nat} {pop : Option Nat}
  {condition body : List Instr} {orElse : Option (List Instr)}

/-- The body of an if-node is in its code. -/
theorem body_subset_conditionalCode : body ⊆ conditionalCode body orElse :=
  fun _ hi => List.mem_cons_of_mem _ (List.mem_append_left _ hi)

/-- The alternative of an if-node is in its code. -/
theorem other_subset_conditionalCode : orElse.getD [] ⊆ conditionalCode body orElse := by
  cases orElse with
  | none => exact List.nil_subset _
  | some code =>
    exact fun _ hi => List.mem_cons_of_mem _ (List.mem_append_right _ (List.mem_cons_of_mem _ hi))

/-- The body of a loop is in its code. -/
theorem body_subset_loopCode : body ⊆ loopCode body orElse :=
  fun _ hi => List.mem_append_right _ (List.mem_append_left _ hi)

/-- The alternative of a loop is in its code. -/
theorem other_subset_loopCode : orElse.getD [] ⊆ loopCode body orElse := by
  cases orElse with
  | none => exact List.nil_subset _
  | some code =>
    exact fun _ hi => List.mem_append_right _ (List.mem_append_right _
      (List.mem_cons_of_mem _ (List.mem_cons_of_mem _ hi)))

/-- A body with its variables is structured if it is without them. -/
theorem structured_boundCode (hbody : Structured guarded body) :
    Structured guarded (boundCode assign decl pop body) := by
  cases decl with
  | nil => exact hbody
  | cons name names =>
    have hunset : Structured guarded (if assign then [] else unsetCode [name]) := by
      split
      · exact .nil
      · exact .of_plain (isPlain_unsetCode [name])
    exact (((Structured.instr rfl).append hbody).append hunset).append (.of_plain (isPlain_popCode _))

/-- The other way through a branch is structured if the alternative is. -/
theorem structured_otherCode (horElse : Structured guarded (orElse.getD [])) :
    Structured guarded ((otherCode decl pop orElse).getD []) := by
  rw [getD_otherCode]
  apply horElse.append
  split
  · exact .nil
  · exact .of_plain (isPlain_popCode pop)

/-- A turn is structured if its body is. -/
theorem structured_turnCode (hbody : Structured guarded body) :
    Structured guarded (turnCode assign decl body) := by
  have hunset : Structured guarded (if assign then [] else unsetCode decl) := by
    split
    · exact .nil
    · exact .of_plain (isPlain_unsetCode decl)
  exact .cons rfl ((((Structured.of_plain (isPlain_bindCode assign decl)).append hbody).append
    hunset).append (.instr rfl))

/-- The code of a branch behind that of its condition is structured if its bodies are. -/
theorem structured_branchCode (hstraight : Straight condition) (hleaves : guarded → Leaves condition 0 1)
    (hbody : Structured guarded body) (horElse : Structured guarded (orElse.getD [])) :
    Structured guarded (condition ++ branchCode kind assign decl pop body orElse) := by
  have hother : Structured guarded ((otherCode decl pop orElse).getD []) := structured_otherCode horElse
  have hbound : Structured guarded (boundCode assign decl pop body) := structured_boundCode hbody
  have hpop (n : Option Nat) : Structured guarded (popCode n) := .of_plain (isPlain_popCode n)
  cases kind with
  | ifThen =>
    rw [branchCode, ← List.append_assoc]
    exact (Structured.conditional hstraight hleaves hbound hother).append (hpop _)
  | withDot =>
    rw [branchCode, ← List.append_assoc]
    refine (Structured.conditional hstraight hleaves ?_ hother).append (hpop _)
    exact .cons rfl (hbound.append (.instr rfl))
  | range =>
    rw [branchCode, ← List.cons_append]
    exact (Structured.of_straight hstraight).append
      ((Structured.range (structured_turnCode hbody) horElse).append (hpop _))

/-! ### Compiled nodes -/

variable {c : Context} {pos : Pos} {s s' s'' s₁ : State} {f f' f'' g : Fragment} {t : Tables}
  {code rest : List Instr} {wf wf' : Prop} {targets more : List String}

/-- What compiling a piece of a template does to the state, and the structure of its code. Its conditions
leave a value if the piece is well-formed. -/
structure Builds (c : Context) (wf : Prop) (targets : List String) (s s' : State) (code : List Instr) :
    Prop where
  extends_ : s.tables.Extends s'.tables
  sound : s.tables.Sound → s'.tables.Sound
  noPrint : wf → s.noPrint = false → s'.noPrint = false
  structured : Structured (wf ∧ s.noPrint = false) code
  calls : s.tables.Sound → ∀ i ∈ code, i.CallsIn c.set s'.tables targets

/-- Whether the code of a piece of a template has been added to a fragment. -/
def AddsBuilt (c : Context) (wf : Prop) (targets : List String) (f : Fragment) (s : State) (f' : Fragment)
    (s' : State) : Prop :=
  ∃ code, f'.instrs = f.instrs ++ code ∧ Builds c wf targets s s' code

/-- Two pieces of a template are built one behind the other. -/
theorem Builds.append (h : Builds c wf targets s s' code) (h' : Builds c wf' more s' s'' rest) :
    Builds c (wf ∧ wf') (targets ++ more) s s'' (code ++ rest) where
  extends_ := h.extends_.trans h'.extends_
  sound hs := h'.sound (h.sound hs)
  noPrint hwf hs := h'.noPrint hwf.2 (h.noPrint hwf.1 hs)
  structured := (h.structured.mono fun hwf => ⟨hwf.1.1, hwf.2⟩).append
    (h'.structured.mono fun hwf => ⟨hwf.1.2, h.noPrint hwf.1.1 hwf.2⟩)
  calls hs := by
    refine List.forall_mem_append.mpr ⟨fun i hi => ?_, fun i hi => ?_⟩
    · exact (h.calls hs i hi).mono h'.extends_ (List.subset_append_left _ _)
    · exact (h'.calls (h.sound hs) i hi).mono (.refl _) (List.subset_append_right _ _)

/-- What is built may be told under a stronger condition and with more targets. -/
theorem Builds.mono (h : Builds c wf targets s s' code) (hwf : wf' → wf) (hmore : targets ⊆ more) :
    Builds c wf' more s s' code where
  extends_ := h.extends_
  sound := h.sound
  noPrint hwf' := h.noPrint (hwf hwf')
  structured := h.structured.mono fun h' => ⟨hwf h'.1, h'.2⟩
  calls hs i hi := (h.calls hs i hi).mono (.refl _) hmore

/-- Instructions that neither jump nor call a template can be put around other code. -/
theorem Builds.between {front back : List Instr} (h : Builds c wf targets s s' code)
    (hfront : ∀ i ∈ front, i.isPlain ∧ i.CallsIn c.set s'.tables targets)
    (hback : ∀ i ∈ back, i.isPlain ∧ i.CallsIn c.set s'.tables targets) :
    Builds c wf targets s s' (front ++ code ++ back) where
  extends_ := h.extends_
  sound := h.sound
  noPrint := h.noPrint
  structured := ((Structured.of_plain fun i hi => (hfront i hi).1).append h.structured).append
    (.of_plain fun i hi => (hback i hi).1)
  calls hs := List.forall_mem_append.mpr ⟨List.forall_mem_append.mpr
    ⟨fun i hi => (hfront i hi).2, h.calls hs⟩, fun i hi => (hback i hi).2⟩

/-- Straight-line code neither jumps nor calls a template. -/
theorem Builds.of_straight (hextends : s.tables.Extends s'.tables)
    (hsound : s.tables.Sound → s'.tables.Sound) (hprint : wf → s.noPrint = false → s'.noPrint = false)
    (hstraight : Straight code) : Builds c wf [] s s' code where
  extends_ := hextends
  sound := hsound
  noPrint := hprint
  structured := .of_straight hstraight
  calls _ := Instr.callsIn_of_straight hstraight

/-- What only grows builds no code. -/
theorem Grows.builds (h : Grows s s') : Builds c wf [] s s' [] :=
  .of_straight h.extends_ h.sound (fun _ hs => h.noPrint.trans hs) straight_nil

/-- Nothing that is added is built. -/
theorem addsBuilt_refl (f : Fragment) (s : State) : AddsBuilt c wf [] f s f s :=
  ⟨[], by simp, (Grows.refl s).builds⟩

/-- What is added in two steps is built together. -/
theorem AddsBuilt.trans (h : AddsBuilt c wf targets f s f' s') (h' : AddsBuilt c wf' more f' s' f'' s'') :
    AddsBuilt c (wf ∧ wf') (targets ++ more) f s f'' s'' := by
  obtain ⟨code, hcode, hbuilds⟩ := h
  obtain ⟨rest, hrest, hbuilds'⟩ := h'
  exact ⟨code ++ rest, by rw [hrest, hcode, List.append_assoc], hbuilds.append hbuilds'⟩

/-- What is added may be told under a stronger condition and with more targets. -/
theorem AddsBuilt.mono (h : AddsBuilt c wf targets f s f' s') (hwf : wf' → wf)
    (hmore : targets ⊆ more) : AddsBuilt c wf' more f s f' s' := by
  obtain ⟨code, hcode, hbuilds⟩ := h
  exact ⟨code, hcode, hbuilds.mono hwf hmore⟩

/-- What holds back a `POP` is plain and calls nothing. -/
theorem plain_holdCode (pop : Option Nat) :
    ∀ i ∈ Fragment.holdCode pop, i.isPlain ∧ i.CallsIn c.set t targets :=
  fun i hi => ⟨isPlain_holdCode pop i hi, Instr.callsIn_of_isQuiet (isQuiet_holdCode pop i hi)⟩

/-- A `POP` that may be missing is plain and calls nothing. -/
theorem plain_popCode (pop : Option Nat) : ∀ i ∈ popCode pop, i.isPlain ∧ i.CallsIn c.set t targets :=
  fun i hi => ⟨isPlain_popCode pop i hi, Instr.callsIn_of_isQuiet (isQuiet_popCode pop i hi)⟩

/-- Writing bytes is structured code without calls. -/
theorem yields_built_pushBytes (bytes : ByteArray) :
    Yields (pushBytes c pos f bytes) s (AddsBuilt c wf [] f s) :=
  (ensures_pushBytes f bytes).yields.mono fun _ _ hg => by
    obtain ⟨index, rfl, hgrows, -⟩ := hg
    exact ⟨[.wb index], by simp, .of_straight hgrows.extends_ hgrows.sound
      (fun _ hs => hgrows.noPrint.trans hs) (straight_singleton rfl)⟩

/-- Text is structured code without calls. -/
theorem yields_built_text (str : String) :
    Yields (text c pos f str) s (AddsBuilt c wf [] f s) := by
  unfold text
  simp only
  split
  · exact yields_pure (addsBuilt_refl f s)
  · exact yields_built_pushBytes _

/-- The code of an action is structured and has no calls. -/
theorem yields_built_action (pipe : Pipeline) :
    Yields (action c pos f pipe) s (AddsBuilt c wf [] f s) := by
  refine .bind (yields_self _) fun g s₁ hrun => yields_get_bind (yields_set_bind ?_)
  have hg := (yields_emitsBindings pipe g s₁ hrun).1
  have hbuilds {code : List Instr} (hcode : Straight code) :
      Builds c wf [] s { s₁ with noPrint := false } code :=
    .of_straight hg.extends_ hg.sound (fun _ _ => rfl) hcode
  have hstart : AddsBuilt c wf [] f s f { s₁ with noPrint := false } := ⟨[], by simp, hbuilds straight_nil⟩
  split
  · split
    · exact yields_pure hstart
    · exact (yields_built_pushBytes _).mono fun _ _ hadds =>
        (hstart.trans hadds).mono (fun h => ⟨h, h⟩) (List.Subset.refl _)
  · have hstraight : Straight (if pipe.decl.isEmpty && !s₁.noPrint then g.push .print else g).instrs := by
      split
      · rw [Fragment.instrs_push]
        exact hg.straight.append (straight_singleton rfl)
      · exact hg.straight
    refine .bind (yields_balanced hstraight) fun b s' hb => yields_pure ?_
    obtain ⟨rfl, held, pop, -, hheld, hbalanced⟩ := hb
    refine ⟨_, ?_, (hbuilds hstraight).between (plain_holdCode pop) (plain_popCode pop)⟩
    rw [Fragment.instrs_append, hbalanced, hheld]

/-- The code of a template call is structured and calls its target. -/
theorem yields_built_templateBehind (target : String) (htarget : c.set.contains target)
    (hstraight : Straight g.instrs) (hg : Builds c wf [] s s₁ g.instrs) :
    Yields (templateBehind c pos f target g) s₁ (AddsBuilt c wf [target] f s) := by
  refine .bind (yields_balanced hstraight) fun b s₂ hb => ?_
  obtain ⟨rfl, held, pop, htake, hheld, -⟩ := hb
  rw [htake]
  refine .bind (yields_callNamespace target) fun ns s₃ hns => ?_
  refine .bind (ensures_intern target).yields fun index s₄ hindex => yields_pure ?_
  have hgrows := hns.1.trans hindex.1
  have hcall : Builds c wf [target] s₂ s₄ [.template ns index] := by
    refine ⟨hgrows.extends_, hgrows.sound, fun _ hs => hgrows.noPrint.trans hs, .instr rfl,
      fun hs i hi => ?_⟩
    obtain rfl := List.mem_singleton.mp hi
    exact ⟨target, List.mem_singleton_self target, htarget, hindex.2 (hgrows.sound hs)⟩
  refine ⟨_, ?_, ((hg.append hcall).mono (fun h => ⟨h, h⟩) (List.Subset.refl _)).between
    (plain_holdCode pop) (plain_popCode pop)⟩
  simp [hheld]

/-- A template call that is well-formed does not print an asset in its pipeline. -/
theorem yields_built_templateCall (name : String) (pipe : Option Pipeline) :
    Yields (templateCall c pos f name pipe) s
      (AddsBuilt c (Node.template pos name pipe).wellFormed [name] f s) := by
  refine .templateCall fun hcontains => ?_
  cases pipe with
  | some pipe =>
    refine (ensures_pipeline true 0 pipe s).yields.mono fun g s₁ hadds => ?_
    obtain ⟨code, hcode, hemits, hfacts⟩ := hadds
    obtain rfl : g.instrs = code := hcode
    exact yields_built_templateBehind name hcontains hemits.straight (.of_straight hemits.extends_
      hemits.sound (fun hwf hs => (hfacts ⟨hwf, fun _ => Nat.zero_le 1⟩ hs).1) hemits.straight)
  | none =>
    refine (ensures_pushValue .empty .nil).yields.mono fun g s₁ hg => ?_
    obtain ⟨index, rfl, hgrows, -⟩ := hg
    have hstraight : Straight (Fragment.empty.push (.val index)).instrs := straight_singleton rfl
    exact yields_built_templateBehind name hcontains hstraight
      (.of_straight hgrows.extends_ hgrows.sound (fun _ hs => hgrows.noPrint.trans hs) hstraight)

/-- What a scope adds to the code of a body does not change its structure. -/
theorem yields_built_inScope {x : M Fragment}
    (h : Yields x { s with declared := [] } (AddsBuilt c wf targets .empty { s with declared := [] })) :
    Yields (inScope x) s fun f s' => Builds c wf targets s s' f.instrs := by
  intro f s' hrun
  obtain ⟨g, s₁, hx, rfl, hcode⟩ := inScope_eq_ok hrun
  obtain ⟨code, hadds, hbuilds⟩ := h g s₁ hx
  have hadds : g.instrs = code := hadds
  rw [hcode, hadds]
  refine ⟨hbuilds.extends_, hbuilds.sound, hbuilds.noPrint,
    hbuilds.structured.append (.of_plain (isPlain_unsetCode _)), fun hs => ?_⟩
  exact List.forall_mem_append.mpr ⟨hbuilds.calls hs,
    fun i hi => Instr.callsIn_of_isQuiet (isQuiet_unsetCode _ i hi)⟩

/-- A branch is a conditional or a loop behind its condition. -/
theorem yields_built_branch {kind : BranchKind} {pipe : Pipeline} {body : Block Node}
    {orElse : Option (Block Node)}
    (hbody : ∀ s, Yields (nodes c .empty body.nodes) s (AddsBuilt c wf targets .empty s))
    (hother : ∀ s, Yields (alternative c orElse) s fun e s' =>
      Builds c wf' more s s' ((e.map Fragment.instrs).getD [])) :
    Yields (node c f (.branch kind pos pipe body orElse)) s
      (AddsBuilt c (pipe.wellFormed kind.vars ∧ wf ∧ wf') (targets ++ more) f s) := by
  intro g s₄ hrun
  obtain ⟨B, hcode⟩ := yields_branchSteps g s₄ hrun
  obtain ⟨_, rfl, hemits, hfacts⟩ :=
    (ensures_pipeline false kind.vars pipe s).of_ok B.compiled_condition
  have hbody : Yields (inScope (return (← nodes c .empty body.nodes).mark body.pos)) B.afterCondition
      fun g s₂ => Builds c wf targets B.afterCondition s₂ g.instrs :=
    yields_built_inScope (.bind (hbody _) fun _ _ hadds => yields_pure hadds)
  have htaken := hbody _ _ B.compiled_taken
  have hother := hother _ _ _ B.compiled_other
  have hbodies := htaken.append hother
  obtain ⟨hgrows, -, -⟩ := (ensures_internAll pipe.decl).of_ok B.compiled_decl
  have hnot {P : Prop} (h : false = true) : P := absurd h Bool.false_ne_true
  refine ⟨Fragment.holdCode B.pop ++ (B.condition.instrs ++
    branchCode kind pipe.assign B.decl B.pop B.taken.instrs (B.other.map Fragment.instrs)), ?_, ?_⟩
  · rw [hcode, BranchSteps.instrs, List.append_assoc]
  · refine ⟨hemits.extends_.trans (hbodies.extends_.trans hgrows.extends_),
      fun hs => hgrows.sound (hbodies.sound (hemits.sound hs)), fun hwf hs => ?_, ?_, fun hs => ?_⟩
    · have hs₁ := (hfacts ⟨hwf.1, hnot⟩ hs).1
      rw [hgrows.noPrint, hbodies.noPrint hwf.2 hs₁]
    · refine .append (.of_plain (isPlain_holdCode B.pop)) (structured_branchCode hemits.straight ?_ ?_ ?_)
      · exact fun h => (hfacts ⟨h.1.1, hnot⟩ h.2).2
      · exact htaken.structured.mono fun h => ⟨h.1.2.1, (hfacts ⟨h.1.1, hnot⟩ h.2).1⟩
      · exact hother.structured.mono fun h =>
          ⟨h.1.2.2, htaken.noPrint h.1.2.1 (hfacts ⟨h.1.1, hnot⟩ h.2).1⟩
    · refine List.forall_mem_append.mpr ⟨fun i hi => (plain_holdCode B.pop i hi).2, ?_⟩
      refine List.forall_mem_append.mpr ⟨Instr.callsIn_of_straight hemits.straight, ?_⟩
      have hcalls := List.forall_mem_append.mp (hbodies.calls (hemits.sound hs))
      exact forall_branchCode (fun i hi => Instr.callsIn_of_isQuiet hi) (fun name _ => trivial)
        (fun i hi => (hcalls.1 i hi).mono hgrows.extends_ (List.Subset.refl _))
        (fun i hi => (hcalls.2 i hi).mono hgrows.extends_ (List.Subset.refl _))

mutual

/-- The code of a node is structured and calls the templates that the node calls. -/
theorem yields_built_node : ∀ (n : Node) (f : Fragment) (s : State),
    Yields (node c f n) s (AddsBuilt c n.wellFormed n.targets f s)
  | .list ⟨pos, ns⟩, f, s => .bind (yields_built_nodes ns f s) fun _ _ hadds => yields_pure hadds
  | .text pos str, f, s => .bind (yields_built_text str) fun _ _ hadds => yields_pure hadds
  | .action pos pipe, f, s => .bind (yields_built_action pipe) fun _ _ hadds => yields_pure hadds
  | .comment pos str, f, s => yields_pure (addsBuilt_refl f s)
  | .branch kind pos pipe ⟨bodyPos, ns⟩ orElse, f, s => by
    refine (yields_built_branch (fun s => yields_built_nodes ns .empty s)
      (fun s => yields_built_alternative orElse s)).mono fun _ _ hadds =>
        hadds.mono (fun hwf => ?_) (List.Subset.refl _)
    simpa only [Node.wellFormed, Bool.and_eq_true, and_assoc] using hwf
  | .template pos name pipe, f, s =>
    .bind (yields_built_templateCall name pipe) fun _ _ hadds => yields_pure hadds
  | .breakLoop pos, f, s | .continueLoop pos, f, s => yields_fail

/-- The code of nodes is structured and calls their targets. -/
theorem yields_built_nodes : ∀ (ns : List Node) (f : Fragment) (s : State),
    Yields (nodes c f ns) s (AddsBuilt c (Node.allWellFormed ns) (Node.allTargets ns) f s)
  | [], f, s => yields_pure (addsBuilt_refl f s)
  | n :: rest, f, s => by
    refine .bind (yields_built_node n f s) fun g s₁ hn => ?_
    refine (yields_built_nodes rest g s₁).mono fun g' s₂ hrest =>
      (hn.trans hrest).mono (fun hwf => ?_) (List.Subset.refl _)
    simpa only [Node.allWellFormed, Bool.and_eq_true] using hwf

/-- The code of an alternative is structured and calls its targets. -/
theorem yields_built_alternative : ∀ (orElse : Option (Block Node)) (s : State),
    Yields (alternative c orElse) s fun e s' => Builds c (Node.elseWellFormed orElse)
      (Node.elseTargets orElse) s s' ((e.map Fragment.instrs).getD [])
  | none, s => yields_pure (Grows.refl s).builds
  | some ⟨pos, ns⟩, s => by
    have hscope : Yields (inScope (return (← nodes c .empty ns).mark pos)) s fun g s' =>
        Builds c (Node.allWellFormed ns) (Node.allTargets ns) s s' g.instrs :=
      yields_built_inScope (.bind (yields_built_nodes ns .empty _) fun _ _ hadds => yields_pure hadds)
    refine .bind hscope fun g s' hg => yields_pure ?_
    rw [instrs_other]
    exact hg

end

/-- The code of a template is structured and calls the templates that its tree calls. The conditions of
a well-formed template leave a value. -/
theorem WrittenFrom.structured {tree : Tree} {u : CompiledTemplate} (h : WrittenFrom c tree t u) :
    Structured (Node.allWellFormed tree.root.nodes) u.code.toList ∧
      ∀ i ∈ u.code.toList, i.CallsIn c.set t (Node.allTargets tree.root.nodes) := by
  obtain ⟨v, φ, ⟨s, f, s', hnodes, hs, hprint, hextends, rfl⟩, hφ, rfl⟩ := h
  obtain ⟨code, hadds, hbuilds⟩ := yields_built_nodes tree.root.nodes .empty s f s' hnodes
  have hadds : f.code.toList = code := hadds
  rw [Array.toList_map, hadds]
  refine ⟨(hbuilds.structured.mono fun hwf => ⟨hwf, hprint⟩).map hφ, fun i' hi' => ?_⟩
  obtain ⟨i, hi, rfl⟩ := List.mem_map.mp hi'
  exact hφ.callsIn ((hbuilds.calls hs i hi).mono hextends (List.Subset.refl _))

end Compile
end Stencil
