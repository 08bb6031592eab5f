import Stencil.Proofs.Commands

/-!
# Operands that leave one value

A class of operands that are known to leave one value each, however they are nested. What is called
with arguments in them is a function: a method would only take its arguments if there is one, and any
other head would leave them on the stack.
-/

namespace Stencil

namespace Compile

/-- Whether a name is that of a function, which is always called. -/
def isFunction (name : String) : Bool := !isHook name && !isEscaper name

end Compile

mutual

/-- Whether an operand is known to leave one value in the place of the arguments that it gets. An
escaper that is left out leaves its argument, so it needs one. -/
def Operand.single (argc : Nat) : Operand → Bool
  | .ident _ name =>
    Compile.isFunction name || (Compile.isEscaper name && !Compile.isHook name && argc == 1)
  | .chain _ inner _ => inner.single 0 && argc == 0
  | .paren p => p.single && argc == 0
  | _ => argc == 0

/-- Whether all operands that get no arguments are known to leave one value each. -/
def Operand.allSingle : List Operand → Bool
  | [] => true
  | a :: rest => a.single 0 && Operand.allSingle rest

/-- Whether a command is known to leave one value, in the place of the one that it gets if it is
behind another command. -/
def Command.single (chained : Bool) : Command → Bool
  | .mk _ [] => false
  | .mk _ (head :: args) => head.single (args.length + chained.toNat) && Operand.allSingle args

/-- Whether all commands behind the first one are known to leave one value. -/
def Command.allSingle : List Command → Bool
  | [] => true
  | cmd :: rest => cmd.single true && Command.allSingle rest

/-- Whether the pipeline in the parentheses of an operand is known to leave one value. -/
def Pipeline.single : Pipeline → Bool
  | .mk _ _ _ [] => false
  | .mk _ _ decl (cmd :: rest) =>
    decide (decl.length ≤ 1) && cmd.single false && Command.allSingle rest

end

/-- Whether what a head calls a method on is known to be one value. -/
def Operand.receiverSingle : Operand → Bool
  | .chain _ inner _ => inner.single 0
  | _ => true

namespace Compile

open Machine (Replaces)

variable {c : Context} {pos : Pos} {s s' : State} {f f' f'' g body : Fragment} {code : List Instr}
  {known known' : Prop} {n argc : Nat}

/-- Whether code has been added to a fragment that, if it is known to, puts one value in the place of
`n` others. -/
def AddsReplacing (n : Nat) (known : Prop) (f f' : Fragment) : Prop :=
  ∃ code, f'.instrs = f.instrs ++ code ∧ (known → Replaces n code)

/-- A look-up puts a value on the stack. -/
theorem addsReplacing_lookup {i : Instr} (hi : i.isLookup) (f : Fragment) :
    AddsReplacing 0 True f (f.push i) :=
  ⟨[i], Fragment.instrs_push f i, fun _ => Machine.replaces_lookup hi⟩

/-- What is known to imply something else may stand for it. -/
theorem AddsReplacing.imp (h : AddsReplacing n known f f') (himp : known' → known) :
    AddsReplacing n known' f f' := by
  obtain ⟨code, hcode, hreplaces⟩ := h
  exact ⟨code, hcode, fun hknown => hreplaces (himp hknown)⟩

/-- Code that leaves one value may be followed by code that takes it. -/
theorem AddsReplacing.trans (h : AddsReplacing n known f f') (h' : AddsReplacing 1 known' f' f'') :
    AddsReplacing n (known ∧ known') f f'' := by
  obtain ⟨code, hcode, hreplaces⟩ := h
  obtain ⟨rest, hrest, hreplaces'⟩ := h'
  refine ⟨code ++ rest, by rw [hrest, hcode, List.append_assoc], fun hknown => ?_⟩
  exact (hreplaces hknown.1).append (k := 0) (hreplaces' hknown.2)

/-- Code that takes no values takes none of the arguments if there are none. -/
theorem AddsReplacing.of_eq_zero (h : AddsReplacing 0 known f f') (himp : known' → known ∧ argc = 0) :
    AddsReplacing argc known' f f' := by
  obtain ⟨code, hcode, hreplaces⟩ := h
  refine ⟨code, hcode, fun hknown => ?_⟩
  obtain ⟨hknown, rfl⟩ := himp hknown
  exact hreplaces hknown

/-- A value that is pushed is a single one. -/
theorem yields_pushValue_single (f : Fragment) (v : Value) :
    Yields (pushValue c pos f v) s fun f' _ => AddsReplacing 0 True f f' :=
  (ensures_pushValue f v).yields.mono fun _ _ hg => by
    obtain ⟨index, rfl, -⟩ := hg
    exact addsReplacing_lookup rfl f

/-- Fields without arguments leave one value in the place of the one that they start from. -/
theorem yields_fields_single (argc : Nat) (path : List String) :
    Yields (fields c pos argc f path) s fun f' _ => AddsReplacing 1 (argc = 0) f f' := by
  intro f' s' hrun
  obtain ⟨indices, -, hcode⟩ := fields_eq_ok hrun
  refine ⟨_, hcode, fun hargc => ?_⟩
  rw [hargc]
  exact replaces_fields Machine.replaces_nil indices

/-- A function leaves its result in the place of its arguments, and so does an escaper that has one
argument, be it left out or not. -/
theorem yields_identifier_single (argc : Nat) (name : String) :
    Yields (identifier c pos argc f name) s fun f' _ =>
      AddsReplacing argc ((Operand.ident pos name).single argc) f f' :=
  (yields_identifier_code argc name).mono fun f' _ h => by
    obtain ⟨code, hcode, hkind⟩ := h
    refine ⟨code, hcode, fun hsingle => ?_⟩
    simp only [Operand.single, isFunction, Bool.or_eq_true, Bool.and_eq_true, Bool.not_eq_true',
      beq_iff_eq] at hsingle
    rcases hkind with ⟨hhook, -⟩ | ⟨hescaper, rfl⟩ | ⟨index, rfl⟩
    · rcases hsingle with ⟨hnot, -⟩ | ⟨⟨-, hnot⟩, -⟩ <;> rw [hhook] at hnot <;> cases hnot
    · rcases hsingle with ⟨-, hnot⟩ | ⟨-, rfl⟩
      · rw [hescaper] at hnot
        cases hnot
      · exact Machine.replaces_nil
    · exact Machine.replaces_func argc index

/-- A machine without values on which constant code leaves one value does so with its folded code. -/
theorem Folded.replaces {schema : Schema} (h : Folded schema s body g s')
    (hbody : Replaces 0 body.instrs) : Replaces 0 g.instrs := by
  obtain ⟨-, hconstant, values, indices, hvalues, hcode, hentries⟩ := h
  have hstraight : Straight body.instrs :=
    fun i hi => Machine.isStraight_of_isConstant (hconstant i hi)
  obtain ⟨l, l', hstack, hsteps, rfl⟩ := Machine.evaluate?_eq_some hstraight hvalues
  obtain ⟨v, hv⟩ := hbody schema s.tables l l' (Nat.zero_le _) hsteps
  have hlength := congrArg List.length hentries
  rw [hv, hstack] at hlength
  simp only [List.length_map, List.drop_nil, List.reverse_singleton, List.length_singleton] at hlength
  obtain ⟨index, rfl⟩ := List.length_eq_one_iff.mp hlength
  rw [hcode]
  exact Machine.replaces_lookup rfl

/-- Folding keeps a single value. -/
theorem yields_fold_single (h : AddsReplacing 0 known .empty body) :
    Yields (fold c pos body) s fun g _ => AddsReplacing 0 known .empty g := by
  refine (ensures_fold body).yields.mono fun g s' hfold => ?_
  rcases hfold with ⟨rfl, -⟩ | hfolded
  · exact h
  · obtain ⟨code, hcode, hreplaces⟩ := h
    obtain rfl : body.instrs = code := hcode
    exact ⟨g.instrs, rfl, fun hknown => hfolded.replaces (hreplaces hknown)⟩

/-- Each variable is bound by one instruction. -/
theorem bindAll_eq_ok {assign : Bool} {decl : List Variable}
    (h : bindAll c assign f decl s = .ok (f', s')) : ∃ names : List Nat, names.length = decl.length ∧
      f'.instrs = f.instrs ++ names.map fun name => .setVar name assign := by
  induction decl generalizing f s with
  | nil =>
    cases h
    exact ⟨[], rfl, by simp⟩
  | cons v rest ih =>
    obtain ⟨name, s₁, -, hbind⟩ := bind_eq_ok.mp h
    obtain ⟨s₂, hrest⟩ :
        ∃ s₂, bindAll c assign (f.push (.setVar name assign)) rest s₂ = .ok (f', s') := by
      cases assign with
      | true => exact ⟨s₁, hbind⟩
      | false => exact ⟨_, hbind⟩
    obtain ⟨names, hlength, hcode⟩ := ih hrest
    refine ⟨name :: names, by simp [hlength], ?_⟩
    rw [hcode, Fragment.instrs_push, List.append_assoc]
    rfl

/-- Whether a fragment leaves one value, if it is known to, and binds it to the variables of a
pipeline. -/
def BindsSingle (p : Pipeline) (g : Fragment) : Prop :=
  ∃ code, ∃ names : List Nat, names.length = p.decl.length ∧
    g.instrs = code ++ names.map (fun name => .setVar name p.assign) ∧ (p.single → Replaces 0 code)

/-- A pipeline that leaves one value declares one variable at most. -/
theorem length_decl_of_single {p : Pipeline} (h : p.single) : p.decl.length ≤ 1 := by
  obtain ⟨pos, assign, decl, _ | ⟨cmd, rest⟩⟩ := p
  · cases h
  · simp only [Pipeline.single, Bool.and_eq_true, decide_eq_true_eq] at h
    exact h.1.1

/-- The value of a pipeline in parentheses is left as it is. -/
theorem BindsSingle.append {p : Pipeline} (h : BindsSingle p g) (hdecl : p.decl = []) (f : Fragment) :
    AddsReplacing 0 p.single f (f.append g) := by
  obtain ⟨code, names, hlength, hcode, hreplaces⟩ := h
  rw [hdecl] at hlength
  obtain rfl := List.eq_nil_of_length_eq_zero hlength
  exact ⟨code, by rw [Fragment.instrs_append, hcode, List.map_nil, List.append_nil], hreplaces⟩

/-- The value of a pipeline in parentheses that binds a variable is looked up again. -/
theorem BindsSingle.append_push {p : Pipeline} (h : BindsSingle p g) (hdecl : p.decl ≠ []) (f : Fragment)
    (other : Nat) : AddsReplacing 0 p.single f ((f.append g).push (.var other)) := by
  obtain ⟨code, names, hlength, hcode, hreplaces⟩ := h
  refine ⟨g.instrs ++ [.var other], ?_, fun hsingle => ?_⟩
  · rw [Fragment.instrs_push, Fragment.instrs_append, List.append_assoc]
  · have hone : names.length = 1 := by
      have hle := length_decl_of_single hsingle
      have hpos := List.length_pos_iff.mpr hdecl
      omega
    obtain ⟨name, rfl⟩ := List.length_eq_one_iff.mp hone
    have hboth := (hreplaces hsingle).append (k := 0) (Machine.replaces_setVar name other p.assign)
    rw [hcode, List.append_assoc]
    exact hboth

mutual

/-- An operand puts one value in the place of its arguments if it is known to. -/
theorem yields_operand_single (argc : Nat) : ∀ (a : Operand) (f : Fragment) (s : State),
    Yields (operand c argc f a) s fun f' _ => AddsReplacing argc (a.single argc) f f'
  | .bool pos b, f, s | .nil pos, f, s =>
    .bind (yields_pushValue_single f _) fun _ _ hadds =>
      yields_pure (hadds.of_eq_zero (by simp [Operand.single]))
  | .number n, f, s => by
    unfold operand
    split
    · exact .bind (yields_pushValue_single f _) fun _ _ hadds =>
        yields_pure (hadds.of_eq_zero (by simp [Operand.single]))
    · exact yields_fail
  | .string pos str, f, s =>
    .bind (ensures_intern str).yields fun _ _ _ =>
      yields_pure ((addsReplacing_lookup rfl f).of_eq_zero (by simp [Operand.single]))
  | .dot pos, f, s => yields_pure ((addsReplacing_lookup rfl f).of_eq_zero (by simp [Operand.single]))
  | .field pos path, f, s =>
    .bind (yields_fields_single argc path) fun _ _ hfields =>
      yields_pure (((addsReplacing_lookup rfl f).trans hfields).of_eq_zero (by simp [Operand.single]))
  | .chain pos inner path, f, s =>
    .bind (yields_operand_single 0 inner f s) fun _ _ hinner =>
      .bind (yields_fields_single argc path) fun _ _ hfields =>
        yields_pure ((hinner.trans hfields).of_eq_zero (by simp [Operand.single]))
  | .var v, f, s =>
    .bind (ensures_intern v.name).yields fun name _ _ =>
      .bind (yields_fields_single argc v.fields) fun _ _ hfields =>
        yields_pure (((addsReplacing_lookup rfl f).trans hfields).of_eq_zero (by simp [Operand.single]))
  | .ident pos name, f, s =>
    .bind (yields_identifier_single argc name) fun _ _ hadds => yields_pure hadds
  | .paren p, f, s => by
    refine .bind (yields_pipeline_single p s) fun g s₁ hpipe => ?_
    have hsingle (h : Operand.single argc (.paren p) = true) : p.single ∧ argc = 0 := by
      simpa [Operand.single] using h
    cases hdecl : p.decl.getLast? with
    | some v =>
      refine .bind (ensures_intern v.name).yields fun name s₂ _ => yields_pure ?_
      have hne : p.decl ≠ [] := fun hnil => by
        rw [hnil] at hdecl
        cases hdecl
      exact (hpipe.append_push hne f name).of_eq_zero hsingle
    | none =>
      exact yields_pure ((hpipe.append (List.getLast?_eq_none_iff.mp hdecl) f).of_eq_zero hsingle)

/-- The operands that get no arguments leave one value each if they are known to. -/
theorem yields_operands_single : ∀ (args : List Operand) (f : Fragment) (s : State),
    Yields (operands c 0 f args) s fun f' _ => ∃ codes : List (List Instr), codes.length = args.length ∧
      f'.instrs = f.instrs ++ codes.reverse.flatten ∧
      (Operand.allSingle args → ∀ code ∈ codes, Replaces 0 code)
  | [], f, s => yields_pure ⟨[], rfl, by simp, fun _ _ hcode => nomatch hcode⟩
  | a :: rest, f, s =>
    .bind (yields_operands_single rest f s) fun g s₁ hrest =>
      (yields_operand_single 0 a g s₁).mono fun f' _ ha => by
        obtain ⟨codes, hlength, hcodes, hreplaces⟩ := hrest
        obtain ⟨code, hcode, hreplaces'⟩ := ha
        refine ⟨code :: codes, by simp [hlength], by rw [hcode, hcodes]; simp, fun hsingle => ?_⟩
        simp only [Operand.allSingle, Bool.and_eq_true] at hsingle
        exact List.forall_mem_cons.mpr ⟨hreplaces' hsingle.1, hreplaces hsingle.2⟩

/-- A command that is known to leaves one value in the place of the one in front of it. -/
theorem yields_command_single (chained : Bool) : ∀ (cmd : Command) (f : Fragment) (s : State),
    Yields (command c chained f cmd) s fun f' _ => AddsReplacing chained.toNat (cmd.single chained) f f'
  | .mk _ [], f, s => by
    unfold command
    simp only
    split
    · exact yields_pure ⟨[], by simp, fun hsingle => nomatch hsingle⟩
    · exact yields_fail
  | .mk _ (head :: args), f, s => by
    unfold command
    simp only [List.length_cons, Nat.add_sub_cancel]
    split
    · refine .bind (.bind (yields_operands_single args f s) fun g s₁ hargs => ?_) fun g s₂ hadds =>
        yields_pure hadds
      refine (yields_operand_single (args.length + chained.toNat) head g s₁).mono fun f' _ hhead => ?_
      obtain ⟨codes, hlength, hcodes, hreplaces⟩ := hargs
      obtain ⟨code, hcode, hreplaces'⟩ := hhead
      refine ⟨codes.reverse.flatten ++ code, ?_, fun hsingle => ?_⟩
      · rw [Fragment.instrs_mark, hcode, hcodes, List.append_assoc]
      · simp only [Command.single, Bool.and_eq_true] at hsingle
        have hcall := hreplaces' hsingle.1
        rw [← hlength] at hcall
        exact Machine.replaces_operands (hreplaces hsingle.2) hcall
    · exact yields_fail

/-- Commands behind the first one leave one value if they are known to. -/
theorem yields_commands_single : ∀ (cmds : List Command) (f : Fragment) (s : State),
    Yields (commands c true f cmds) s fun f' _ => AddsReplacing 1 (Command.allSingle cmds) f f'
  | [], f, s => yields_pure ⟨[], by simp, fun _ => Machine.replaces_nil⟩
  | cmd :: rest, f, s =>
    .bind (yields_command_single true cmd f s) fun g s₁ hcmd =>
      (yields_commands_single rest g s₁).mono fun _ _ hrest =>
        (hcmd.trans hrest).imp fun hsingle => by simpa [Command.allSingle] using hsingle

/-- A pipeline in parentheses leaves one value, or binds it, if it is known to. -/
theorem yields_pipeline_single : ∀ (p : Pipeline) (s : State),
    Yields (pipeline c true p) s fun g _ => BindsSingle p g
  | .mk pos assign decl cmds, s => by
    have hbody : Yields (commands c false .empty cmds) s fun body _ =>
        AddsReplacing 0 (Pipeline.single (.mk pos assign decl cmds)) .empty body := by
      cases cmds with
      | nil => exact yields_pure ⟨[], rfl, fun hsingle => nomatch hsingle⟩
      | cons cmd rest =>
        refine .bind (yields_command_single false cmd .empty s) fun g s₁ hcmd => ?_
        refine (yields_commands_single rest g s₁).mono fun _ _ hrest => (hcmd.trans hrest).imp ?_
        intro hsingle
        simp only [Pipeline.single, Bool.and_eq_true] at hsingle
        exact ⟨hsingle.1.2, hsingle.2⟩
    refine .bind hbody fun body s₁ hadds => .bind (yields_fold_single hadds) fun g s₂ hfold => ?_
    refine .bind (yields_self _) fun g' s₃ hbind => yields_pure ?_
    obtain ⟨names, hlength, hcode⟩ := bindAll_eq_ok hbind
    obtain ⟨code, hg, hreplaces⟩ := hfold
    obtain rfl : g.instrs = code := hg
    exact ⟨g.instrs, names, hlength, hcode, hreplaces⟩

end

/-- The codes of operands that are known to leave one value each leave one. -/
theorem CompilesAll.replaces {args : List Operand} {codes : List (List Instr)}
    (h : CompilesAll c f s args codes f' s') (hsingle : Operand.allSingle args) :
    ∀ code ∈ codes, Replaces 0 code := by
  induction h with
  | nil => exact fun _ hcode => nomatch hcode
  | @cons a args code codes g f' s₁ s' _ ha hcode ih =>
    simp only [Operand.allSingle, Bool.and_eq_true] at hsingle
    obtain ⟨code', hcode', hreplaces⟩ := yields_operand_single 0 a g s₁ f' s' ha
    obtain rfl := List.append_cancel_left (hcode'.symm.trans hcode)
    exact List.forall_mem_cons.mpr ⟨hreplaces hsingle.1, ih hsingle.2⟩

/-! ### Receivers -/

variable {path : List String}

/-- Whether code has been added to a fragment that, if it ends with a call, passes it so many arguments
and has its receivers, if they are known to be left, in front of it. -/
def AddsCall (argc : Nat) (known : Prop) (f f' : Fragment) : Prop :=
  ∃ code, f'.instrs = f.instrs ++ code ∧ ∀ receiver call, code = receiver ++ [call] → call.isCall →
    call.argc = argc ∧
      (known → ∀ schema t m m', m.steps schema t receiver = .done m' → Machine.Receives call m m')

/-- A method is called on the value of the fields in front of its name. -/
theorem AddsReplacing.yields_call (h : AddsReplacing 0 known f g) (hpath : (!path.isEmpty) = true)
    (pos' : Pos) : Yields (do return (← fields c pos argc g path).mark pos') s
      fun f' _ => AddsCall argc known f f' := by
  refine .bind (yields_self _) fun f' s₁ hfields => yields_pure ?_
  obtain ⟨base, hg, hbase⟩ := h
  obtain ⟨indices, hlength, hcode⟩ := fields_eq_ok hfields
  have hindices : indices ≠ [] := by
    rintro rfl
    obtain rfl := List.eq_nil_of_length_eq_zero hlength.symm
    cases hpath
  refine ⟨base ++ fieldCode argc indices, ?_, ?_⟩
  · rw [Fragment.instrs_mark, hcode, hg, List.append_assoc]
  intro receiver call heq _
  obtain ⟨init, last, rfl, rfl⟩ := concat_eq_fieldCode hindices heq.symm
  refine ⟨rfl, fun hknown schema t m m' hsteps => ?_⟩
  obtain ⟨v, hstack⟩ := replaces_fields (hbase hknown) init schema t m m' (Nat.zero_le _) hsteps
  exact ⟨[v], rfl, hstack⟩

/-- What a name is compiled to has no receivers. -/
theorem yields_identifier_call (argc : Nat) (name : String) :
    Yields (identifier c pos argc f name) s fun f' _ => AddsCall argc known f f' := by
  refine (yields_identifier_code argc name).mono fun f' _ h => ?_
  obtain ⟨code, hcode, hkind⟩ := h
  refine ⟨code, hcode, fun receiver call heq hcall => ?_⟩
  rcases hkind with ⟨-, hquiet⟩ | ⟨-, rfl⟩ | ⟨index, rfl⟩
  · have hnot := hquiet call (by simp [heq])
    rw [hcall] at hnot
    cases hnot
  · cases receiver <;> cases heq
  · obtain ⟨rfl, hlast⟩ := List.append_inj' (show [] ++ [Instr.func argc index] = _ from heq) rfl
    obtain rfl := List.singleton_inj.mp hlast
    refine ⟨rfl, fun _ schema t m m' hsteps => ?_⟩
    cases hsteps
    exact ⟨[], rfl, rfl⟩

/-- A callable head is passed all arguments. -/
theorem yields_head (argc : Nat) {head : Operand} (hhead : head.isCallable) (f : Fragment) (s : State) :
    Yields (operand c argc f head) s fun f' _ => AddsCall argc head.receiverSingle f f' := by
  cases head with
  | ident pos name =>
    exact .bind (yields_identifier_call argc name) fun _ _ hcall => yields_pure hcall
  | field pos path =>
    have hdot : AddsReplacing 0 (Operand.field pos path).receiverSingle f (f.push .dot) :=
      (addsReplacing_lookup rfl f).imp fun _ => trivial
    exact hdot.yields_call hhead pos
  | chain pos inner path =>
    exact .bind (yields_operand_single 0 inner f s) fun _ _ hinner => hinner.yields_call hhead pos
  | var v =>
    refine .bind (ensures_intern v.name).yields fun name _ _ => ?_
    have hvar : AddsReplacing 0 (Operand.var v).receiverSingle f (f.push (.var name)) :=
      (addsReplacing_lookup rfl f).imp fun _ => trivial
    exact hvar.yields_call hhead v.pos
  | _ => cases hhead

end Compile
end Stencil
