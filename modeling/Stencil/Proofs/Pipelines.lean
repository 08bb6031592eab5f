import Stencil.Proofs.Balance
import Stencil.Proofs.Constants
import Stencil.Proofs.WellFormed

/-!
# Compiled pipelines

The code of a well-formed pipeline never runs out of values and leaves at least one, unless that is
bound to a variable. What it may take is known from the number of arguments that its calls get.
Asset hooks leave no value, so they are looked at on their own.
-/

namespace Stencil

namespace Compile

variable {c : Context} {pos : Pos} {s s' : State} {f f' : Fragment}

/-- An instruction that only pushes a value is added after the tables have grown for it. -/
theorem adds_value {wf : Prop} (i : Instr) (n : Nat) (hgrows : Grows s s') (hstraight : i.isStraight)
    (hvalid : s'.tables.Sound → i.Valid s'.tables) (hdeclares : i.declares = [])
    (htakes : i.takes = 0) (hgives : i.gives = 1) : Adds f s wf n (n + 1) (f.push i) s' := by
  have hstart : Adds f s wf n n f s' := (adds_refl fun _ => Nat.le_refl n).grows hgrows
  have hpush := hstart.push hstraight hvalid hdeclares fun _ => by omega
  rwa [htakes, hgives] at hpush

/-- Code that leaves more than one value leaves one. -/
theorem Adds.one {wf : Prop} {before after : Nat} (h : Adds f s wf before (after + 1) f' s') :
    Adds f s wf before 1 f' s' :=
  h.mono id fun _ => ⟨Nat.le_refl _, by omega⟩

/-- Field accesses take the value they start from and the arguments of the last one. -/
theorem ensures_fields (argc : Nat) (path : List String) :
    Ensures (fields c pos argc f path) s (Adds f s True (argc + 1) 1) := by
  induction path generalizing f s with
  | nil => exact ensures_pure (adds_refl fun _ => by omega)
  | cons name rest ih =>
    refine .bind (ensures_intern name) fun index s₁ hindex => ?_
    obtain ⟨hgrows, hentry⟩ := hindex
    have hpush (k : Nat) (hk : k ≤ argc) :
        Adds f s True (argc + 1) (argc + 1 - (k + 1) + 1) (f.push (.field k index)) s₁ :=
      ((adds_refl fun _ => Nat.le_refl _).grows hgrows).push rfl
        (fun hs => Tables.lt_size_of_entry (hentry hs)) rfl fun _ => by simp [Instr.takes, hk]
    cases rest with
    | nil => exact ensures_pure (hpush argc (Nat.le_refl argc)).one
    | cons name' rest =>
      exact ih.mono fun g s₂ hrest => (hpush 0 (Nat.zero_le argc)).trans hrest

/-- Only names of asset hooks have bytes. -/
theorem assetBytes?_eq_none {set : TemplateSet} {name : String} (h : isHook name = false) :
    assetBytes? set name = none := by
  simp only [isHook, Bool.or_eq_false_iff, beq_eq_false_iff_ne] at h
  rw [assetBytes?, if_neg h.1, if_neg h.2]

/-- Fields of a value that has been added take its place. -/
theorem Adds.fields {wf : Prop} {argc : Nat} (h : Adds f s wf argc (argc + 1) f' s')
    (path : List String) (pos' : Pos) :
    Ensures (do return (← fields c pos argc f' path).mark pos') s' (Adds f s wf argc 1) :=
  .bind (ensures_fields argc path) fun _ _ hfields => ensures_pure
    (h.trans (hfields.imp (fun _ => trivial)))

/-- What compiling an asset hook adds: code that leaves no value, and the enclosing action must not
print. -/
def AddsHook (f : Fragment) (s : State) (f' : Fragment) (s' : State) : Prop :=
  ∃ code, code.length ≤ 1 ∧ f'.instrs = f.instrs ++ code ∧ Emits s s' code ∧ s'.noPrint = true ∧
    Leaves code 0 0

/-- An asset hook writes its bytes at once or not at all, and the action does not print. -/
theorem ensures_hook (argc : Nat) {name : String} {bytes : ByteArray}
    (hhook : assetBytes? c.set name = some bytes) :
    Ensures (identifier c pos argc f name) s (AddsHook f s) := by
  unfold identifier
  rw [hhook]
  simp only
  split
  · exact ⟨[], by simp, by simp, (Grows.refl s).emits.noPrint, rfl, leaves_nil 0⟩
  · refine .bind (ensures_pushBytes f bytes) fun g s₁ hg => ?_
    obtain ⟨index, rfl, hgrows, hentry⟩ := hg
    refine ensures_modify_bind (ensures_pure ⟨[.wb index], by simp, by simp, ?_, rfl, leaves_singleton⟩)
    have hwb : Emits s₁ s₁ [.wb index] :=
      emits_singleton rfl (fun _ => Tables.lt_size_of_entry hentry) rfl
    exact (hgrows.emits.trans hwb).noPrint

/-- A call that is left out has an argument, or it calls the escaper for comments. -/
theorem lt_of_resolve_eq_none {options : CompileOptions} {t : Tables} {argc : Nat} {name : String}
    (h : resolve options false (knownOperand t argc f) name = none) :
    0 < argc ∨ name = Builtin.commentEscaperName := by
  unfold resolve resolveEscaper at h
  by_cases hargc : argc = 1
  · exact Or.inl (by omega)
  · have hunknown : knownOperand t argc f = none := by rw [knownOperand, if_neg hargc]
    rw [hunknown] at h
    simp only [Bool.false_eq_true, if_false] at h
    split at h
    · split at h
      · next hcomment => exact Or.inr hcomment.1
      · cases h
    · cases h

/-- A call takes its arguments and leaves a value, also if it is left out. -/
theorem ensures_identifier (argc : Nat) (name : String) :
    Ensures (identifier c pos argc f name) s
      (Adds f s (isHook name = false ∧ (0 < argc ∨ name ≠ Builtin.commentEscaperName)) argc 1) := by
  cases hhook : assetBytes? c.set name with
  | some bytes =>
    apply (ensures_hook argc hhook).mono
    intro f' s' hadds
    obtain ⟨code, -, hcode, hemits, -, -⟩ := hadds
    refine ⟨code, hcode, hemits, fun hwf => ?_⟩
    rw [assetBytes?_eq_none hwf.1] at hhook
    cases hhook
  | none =>
    unfold identifier
    rw [hhook]
    apply ensures_get_bind
    cases hresolve : resolve c.options s.noPrint (knownOperand s.tables argc f) name with
    | none =>
      refine ensures_pure ⟨[], by simp, .refl s, fun hwf hprint => ⟨hprint, ?_⟩⟩
      rw [hprint] at hresolve
      have hlt : 0 < argc := by
        rcases lt_of_resolve_eq_none hresolve with hlt | hcomment
        · exact hlt
        · exact hwf.2.resolve_right fun hne => hne hcomment
      exact (leaves_nil argc).weaken hlt
    | some name' =>
      simp only
      split
      · exact ensures_fail fun _ => nofun
      · next function hfunction =>
        refine .bind (ensures_addFunc function) fun index s₁ hindex => ensures_pure ?_
        obtain ⟨hgrows, hentry⟩ := hindex
        have hstart : Adds f s (isHook name = false ∧ (0 < argc ∨ name ≠ Builtin.commentEscaperName))
            argc argc f s₁ := (adds_refl fun _ => Nat.le_refl argc).grows hgrows
        exact (hstart.push (i := .func argc index) rfl hentry rfl fun _ => Nat.le_refl argc).one

/-- Binding a value takes it and remembers a variable that is declared. -/
theorem adds_setVar {wf : Prop} {n : Nat} (name : Nat) (assign : Bool) (hgrows : Grows s s')
    (hpos : wf → 0 < n) :
    Adds f s wf n (n - 1) (f.push (.setVar name assign))
      { s' with declared := (Instr.setVar name assign).declares ++ s'.declared } := by
  refine ⟨[.setVar name assign], by simp, ⟨hgrows.extends_, hgrows.sound, straight_singleton rfl, ?_, ?_⟩,
    fun hwf hprint => ⟨hgrows.noPrint.trans hprint, ?_⟩⟩
  · intro _ i hi
    rw [List.mem_singleton.mp hi]
    trivial
  · rw [hgrows.declared]
    cases assign <;> rfl
  · have hn := hpos hwf
    exact ⟨hn, Nat.le_refl _⟩

/-- Binding a pipeline to variables takes as many values. -/
theorem ensures_bindAll (assign : Bool) (decl : List Variable) (n : Nat) :
    Ensures (bindAll c assign f decl) s (Adds f s (decl.length ≤ n) n (n - decl.length)) := by
  induction decl generalizing f s n with
  | nil => exact ensures_pure (adds_refl fun _ => Nat.le_refl n)
  | cons v rest ih =>
    refine .bind (ensures_intern v.name) fun name s₁ hname => ?_
    obtain ⟨hgrows, -⟩ := hname
    have hset : Adds f s ((v :: rest).length ≤ n) n (n - 1) (f.push (.setVar name assign))
        { s₁ with declared := (Instr.setVar name assign).declares ++ s₁.declared } :=
      adds_setVar name assign hgrows fun hle => by
        rw [List.length_cons] at hle
        omega
    have hrest : Ensures (bindAll c assign (f.push (.setVar name assign)) rest)
        { s₁ with declared := (Instr.setVar name assign).declares ++ s₁.declared }
        (Adds f s ((v :: rest).length ≤ n) n (n - (v :: rest).length)) := by
      refine (ih (n - 1)).mono fun g s₂ hadds => hset.trans (hadds.mono (fun hle => ?_) fun _ => ?_)
      · simp at hle
        omega
      · simp
        omega
    cases assign with
    | true => exact hrest
    | false => exact ensures_modify_bind hrest

/-- The value of the commands of a pipeline is folded and bound. -/
theorem ensures_value {s₀ : State} {wf : Prop} {body : Fragment} (binds assign : Bool)
    (decl : List Variable) (hbody : Adds .empty s₀ wf 0 1 body s)
    (hdecl : wf → binds = true → decl.length ≤ 1) :
    Ensures (do
        let body ← fold c pos body
        let body ← if binds then bindAll c assign body decl else pure body
        return body.mark pos) s
      (Adds .empty s₀ wf 0 (1 - if binds then decl.length else 0)) := by
  refine .bind (ensures_fold_adds hbody) fun g s₁ hg => ?_
  cases binds with
  | false => exact ensures_pure hg
  | true =>
    refine .bind (ensures_bindAll assign decl 1) fun g' s₂ hbind => ensures_pure ?_
    exact hg.trans (hbind.imp (fun hwf => hdecl hwf rfl))

mutual

/-- An operand takes its arguments and leaves a value. -/
theorem ensures_operand (argc : Nat) (called : Bool) (hcalled : called = true → 0 < argc) :
    ∀ a : Operand, ∀ f s, Ensures (operand c argc f a) s (Adds f s (a.wellFormed called) argc 1)
  | .bool pos b, f, s => by
    refine .bind (ensures_pushValue f (.bool b)) fun g s₁ hg => ensures_pure ?_
    obtain ⟨index, rfl, hgrows, hentry⟩ := hg
    exact (adds_value (.val index) argc hgrows rfl (fun _ => Tables.lt_size_of_entry hentry) rfl rfl
      rfl).one
  | .number n, f, s => by
    unfold operand
    split
    · next v hv =>
      refine .bind (ensures_pushValue f v) fun g s₁ hg => ensures_pure ?_
      obtain ⟨index, rfl, hgrows, hentry⟩ := hg
      exact (adds_value (.val index) argc hgrows rfl (fun _ => Tables.lt_size_of_entry hentry) rfl rfl
        rfl).one
    · exact ensures_fail fun _ => nofun
  | .string pos str, f, s => by
    refine .bind (ensures_intern str) fun index s₁ hindex => ensures_pure ?_
    obtain ⟨hgrows, hentry⟩ := hindex
    exact (adds_value (.string index) argc hgrows rfl
      (fun hs => Tables.lt_size_of_entry (hs.texts ▸ hentry hs)) rfl rfl rfl).one
  | .nil pos, f, s => by
    refine .bind (ensures_pushValue f .nil) fun g s₁ hg => ensures_pure ?_
    obtain ⟨index, rfl, hgrows, hentry⟩ := hg
    exact (adds_value (.val index) argc hgrows rfl (fun _ => Tables.lt_size_of_entry hentry) rfl rfl
      rfl).one
  | .dot pos, f, s =>
    ensures_pure (adds_value .dot argc (.refl s) rfl (fun _ => trivial) rfl rfl rfl).one
  | .field pos path, f, s =>
    (adds_value .dot argc (.refl s) rfl (fun _ => trivial) rfl rfl rfl).fields path pos
  | .chain pos inner path, f, s => by
    refine .bind (ensures_operand 0 false nofun inner f s) fun g s₁ hinner => ?_
    refine Adds.fields (hinner.mono id fun _ => ⟨Nat.zero_le argc, ?_⟩) path pos
    omega
  | .var v, f, s => by
    refine .bind (ensures_intern v.name) fun name s₁ hname => ?_
    exact (adds_value (.var name) argc hname.1 rfl (fun _ => trivial) rfl rfl rfl).fields v.fields v.pos
  | .ident pos name, f, s => by
    refine .bind (ensures_identifier argc name) fun g s₁ hadds => ensures_pure ?_
    apply hadds.imp
    intro hwf
    simp only [Operand.wellFormed, Bool.and_eq_true, Bool.not_eq_true', Bool.or_eq_true,
      bne_iff_ne] at hwf
    exact ⟨hwf.1, hwf.2.imp_left hcalled⟩
  | .paren p, f, s => by
    refine .bind (ensures_pipeline true 1 p s) fun g s₁ hpipe => ?_
    have hadds := hpipe.append f
    have hwf (h : Operand.wellFormed called (.paren p) = true) :
        p.wellFormed 1 ∧ (true = true → 1 ≤ 1) := ⟨by simpa [Operand.wellFormed] using h, by simp⟩
    cases hdecl : p.decl.getLast? with
    | some v =>
      refine .bind (ensures_intern v.name) fun name s₂ hname => ensures_pure ?_
      have hvar : Adds (f.append g) s₁ True argc (argc + 1) ((f.append g).push (.var name)) s₂ :=
        adds_value (.var name) argc hname.1 rfl (fun _ => trivial) rfl rfl rfl
      exact (hadds.mono hwf fun _ => ⟨Nat.zero_le argc, by omega⟩).trans
        (hvar.one.imp (fun _ => trivial))
    | none =>
      refine ensures_pure (hadds.mono hwf fun _ => ⟨Nat.zero_le argc, ?_⟩)
      rw [List.getLast?_eq_none_iff.mp hdecl]
      simp

/-- Operands that are not called leave a value each. -/
theorem ensures_operands :
    ∀ args : List Operand, ∀ f s, Ensures (operands c 0 f args) s
      (Adds f s (Operand.allWellFormed args) 0 args.length)
  | [], f, s => ensures_pure (adds_refl fun _ => Nat.le_refl 0)
  | a :: rest, f, s => by
    refine .bind (ensures_operands rest f s) fun g s₁ hrest => ?_
    apply (ensures_operand 0 false nofun a g s₁).mono
    intro g' s₂ ha
    refine (hrest.imp (fun hwf => ?_)).trans
      (ha.mono (fun hwf => ?_) fun _ => ⟨Nat.zero_le _, ?_⟩)
    · simp only [Operand.allWellFormed, Bool.and_eq_true] at hwf
      exact hwf.2
    · simp only [Operand.allWellFormed, Bool.and_eq_true] at hwf
      exact hwf.1
    · rw [List.length_cons]
      omega

/-- A command takes the result of the one before it, if it gets that, and leaves a value. -/
theorem ensures_command (chained : Bool) :
    ∀ cmd : Command, ∀ f s, Ensures (command c chained f cmd) s
      (Adds f s (cmd.wellFormed chained) chained.toNat 1)
  | .mk pos [], f, s => by
    unfold command
    simp only
    split
    · exact ensures_pure (adds_refl nofun)
    · exact ensures_fail fun _ => nofun
  | .mk pos (head :: rest), f, s => by
    unfold command
    simp only [List.length_cons, Nat.add_sub_cancel]
    split
    · refine .bind (.bind (ensures_operands rest f s) fun g s₁ hrest => ?_) fun g s₂ hadds =>
        ensures_pure hadds
      refine (ensures_operand (rest.length + chained.toNat) (chained || !rest.isEmpty) ?_ head g s₁).mono
        fun g' s₂ hhead => ?_
      · cases chained <;> cases rest <;> simp
      · have hwf (h : Command.wellFormed chained (.mk pos (head :: rest)) = true) :
            head.wellFormed (chained || !rest.isEmpty) ∧ Operand.allWellFormed rest := by
          simpa [Command.wellFormed] using h
        have hargs : Adds f s (Command.wellFormed chained (.mk pos (head :: rest))) chained.toNat
            (rest.length + chained.toNat) g s₁ :=
          hrest.mono (fun h => (hwf h).2) fun _ => ⟨Nat.zero_le _, by omega⟩
        exact hargs.trans (hhead.imp (fun h => (hwf h).1))
    · exact ensures_fail fun _ => nofun

/-- Commands behind the first one take its result and leave a value. -/
theorem ensures_commands :
    ∀ cmds : List Command, ∀ f s, Ensures (commands c true f cmds) s
      (Adds f s (Command.allWellFormed cmds) 1 1)
  | [], f, s => ensures_pure (adds_refl fun _ => Nat.le_refl 1)
  | cmd :: rest, f, s => by
    refine .bind (ensures_command true cmd f s) fun g s₁ hcmd => ?_
    apply (ensures_commands rest g s₁).mono
    intro g' s₂ hrest
    have hwf (h : Command.allWellFormed (cmd :: rest) = true) :
        cmd.wellFormed true ∧ Command.allWellFormed rest := by
      simpa [Command.allWellFormed] using h
    exact (hcmd.imp (fun h => (hwf h).1)).trans
      (hrest.imp (fun h => (hwf h).2))

/-- A pipeline leaves a value, unless that is bound to a variable. -/
theorem ensures_pipeline (binds : Bool) (vars : Nat) :
    ∀ pipe : Pipeline, ∀ s, Ensures (pipeline c binds pipe) s
      (Adds .empty s (pipe.wellFormed vars ∧ (binds = true → vars ≤ 1)) 0
        (1 - if binds then pipe.decl.length else 0))
  | .mk pos assign decl [], s => ensures_value binds assign decl (adds_refl nofun) nofun
  | .mk pos assign decl (cmd :: rest), s => by
    have hwf (h : Pipeline.wellFormed vars (.mk pos assign decl (cmd :: rest)) ∧
        (binds = true → vars ≤ 1)) : (decl.length ≤ vars ∧ cmd.wellFormed false) ∧
          Command.allWellFormed rest := by
      simpa [Pipeline.wellFormed] using h.1
    have hcommands : Ensures (commands c false .empty (cmd :: rest)) s (Adds .empty s
        (Pipeline.wellFormed vars (.mk pos assign decl (cmd :: rest)) ∧ (binds = true → vars ≤ 1))
        0 1) := by
      refine .bind (ensures_command false cmd .empty s) fun g s₁ hcmd => ?_
      apply (ensures_commands rest g s₁).mono
      intro g' s₂ hrest
      exact (hcmd.imp (fun h => (hwf h).1.2)).trans
        (hrest.imp (fun h => (hwf h).2))
    refine .bind hcommands fun body s₁ hbody => ensures_value binds assign decl hbody ?_
    intro h hbinds
    exact Nat.le_trans (hwf h).1.1 (h.2 hbinds)

end

end Compile
end Stencil
