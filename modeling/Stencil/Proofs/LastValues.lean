import Stencil.Proofs.PlainCalls

/-!
# Last values

What commands leave on top of the stack. The code of an operand ends with an instruction that pushes a
value, unless its parentheses are empty; also where an escaper is left out, as that is only done behind a
call. So there is a value for the next command wherever the code of commands has ended.
-/

namespace Stencil

mutual

/-- Whether no parentheses in an operand are empty. -/
def Operand.isFilled : Operand → Bool
  | .chain _ inner _ => inner.isFilled
  | .paren p => p.isFilled
  | _ => true

/-- Whether no parentheses in operands are empty. -/
def Operand.allFilled : List Operand → Bool
  | [] => true
  | a :: rest => a.isFilled && Operand.allFilled rest

/-- Whether a command has an operand, and no parentheses in it are empty. -/
def Command.isFilled : Command → Bool
  | .mk _ [] => false
  | .mk _ (head :: rest) => head.isFilled && Operand.allFilled rest

/-- Whether each command has an operand, and no parentheses in them are empty. -/
def Command.allFilled : List Command → Bool
  | [] => true
  | cmd :: rest => cmd.isFilled && Command.allFilled rest

/-- Whether a pipeline has a command, each command has an operand, and no parentheses in them are
empty. -/
def Pipeline.isFilled : Pipeline → Bool
  | .mk _ _ _ [] => false
  | .mk _ _ _ (cmd :: rest) => cmd.isFilled && Command.allFilled rest

end

/-! ### Code that ends with a value -/

/-- Whether the last instruction of code leaves a value. -/
def EndsInValue (code : List Instr) : Prop := ∃ front i, code = front ++ [i] ∧ 0 < i.gives

/-- Code in front of code that ends with a value changes nothing. -/
theorem EndsInValue.append_left {rest : List Instr} (h : EndsInValue rest) (code : List Instr) :
    EndsInValue (code ++ rest) := by
  obtain ⟨front, i, rfl, hi⟩ := h
  exact ⟨code ++ front, i, (List.append_assoc _ _ _).symm, hi⟩

/-- An instruction that gives a value ends code with one. -/
theorem endsInValue_push (f : Fragment) {i : Instr} (hi : 0 < i.gives) : EndsInValue (f.push i).instrs :=
  ⟨f.instrs, i, Fragment.instrs_push f i, hi⟩

/-- Constants end code with a value if there are any. -/
theorem endsInValue_map_val {indices : List Nat} (h : indices ≠ []) :
    EndsInValue (indices.map .val) := by
  obtain ⟨init, last, rfl⟩ := (List.eq_nil_or_concat indices).resolve_left h
  exact ⟨init.map .val, .val last, by simp, Nat.one_pos⟩

namespace Machine

variable {schema : Schema} {t : Tables} {i : Instr} {code : List Instr} {l l' : Machine}

/-- After an instruction that leaves a value there is one on the stack. -/
theorem stack_ne_nil_of_step (hi : i.isStraight) (hgives : 0 < i.gives)
    (h : l.step schema t i = .next l') : l'.stack ≠ [] := by
  have hadvances := step_eq_next.mp h
  cases hadvances with
  | dot | string | val | var | func | field => exact List.cons_ne_nil _ _
  | print hstack => exact hstack ▸ List.cons_ne_nil _ _
  | wb | declare | assign => cases hgives
  | _ => cases hi

/-- After code that ends with a value there is one on the stack. -/
theorem stack_ne_nil_of_steps (hcode : Straight code) (hends : EndsInValue code)
    (h : l.steps schema t code = .done l') : l'.stack ≠ [] := by
  obtain ⟨front, i, rfl, hgives⟩ := hends
  have hi : i.isStraight := hcode i (List.mem_append_right _ (List.mem_singleton_self i))
  obtain ⟨l₁, -, hlast⟩ := (steps_append_eq_done [i]).mp h
  exact stack_ne_nil_of_step hi hgives ((steps_singleton_eq_done hi).mp hlast)

end Machine

namespace Compile

variable {c : Context} {pos : Pos} {s s' : State} {f g body : Fragment}

/-- Folding keeps a value at the end, as code that ends with a value does not evaluate to nothing. -/
theorem Folded.endsInValue {schema : Schema} (h : Folded schema s body g s')
    (hends : EndsInValue body.instrs) : EndsInValue g.instrs := by
  obtain ⟨-, hconstant, values, indices, hvalues, hcode, hentries⟩ := h
  have hstraight : Straight body.instrs := fun i hi => Machine.isStraight_of_isConstant (hconstant i hi)
  obtain ⟨l, l', -, hsteps, rfl⟩ := Machine.evaluate?_eq_some hstraight hvalues
  have hstack : l'.stack ≠ [] := Machine.stack_ne_nil_of_steps hstraight hends hsteps
  rw [hcode]
  refine endsInValue_map_val ?_
  rintro rfl
  have hlength := congrArg List.length hentries
  simp only [List.map_nil, List.length_nil, List.length_map, List.length_reverse] at hlength
  exact hstack (List.eq_nil_of_length_eq_zero hlength.symm)

/-- Folding keeps a value at the end. -/
theorem yields_fold_value (hends : EndsInValue body.instrs) :
    Yields (fold c pos body) s fun g _ => EndsInValue g.instrs := by
  refine (ensures_fold body).yields.mono fun g s' hfold => ?_
  rcases hfold with ⟨rfl, rfl⟩ | hfolded
  · exact hends
  · exact hfolded.endsInValue hends

/-- The field accesses behind a value end with a value. -/
theorem yields_fields_value (argc : Nat) (path : List String) (hends : EndsInValue f.instrs) :
    Yields (fields c pos argc f path) s fun g _ => EndsInValue g.instrs := by
  induction path generalizing f s with
  | nil => exact yields_pure hends
  | cons name rest ih =>
    exact .bind (yields_self _) fun index _ _ => ih (endsInValue_push f Nat.one_pos)

/-- Fields of a value end with a value. -/
theorem yields_markedFields_value (hends : EndsInValue f.instrs) (argc : Nat) (path : List String)
    (pos' : Pos) :
    Yields (do return (← fields c pos argc f path).mark pos') s fun g _ => EndsInValue g.instrs :=
  .bind (yields_fields_value argc path hends) fun _ _ hfields => yields_pure hfields

/-- A value that is pushed is a value at the end. -/
theorem yields_pushValue_value (f : Fragment) (v : Value) :
    Yields (pushValue c pos f v) s fun g _ => EndsInValue g.instrs :=
  (ensures_pushValue f v).yields.mono fun g _ hpush => by
    obtain ⟨index, rfl, -⟩ := hpush
    exact endsInValue_push f Nat.one_pos

/-- A call is only left out if something is known about its operand, or comments are kept. -/
theorem exists_of_resolve_eq_none {options : CompileOptions} {known : Option ParamType} {name : String}
    (hdrop : options.dropComments) (h : resolve options false known name = none) :
    ∃ ty, known = some ty := by
  cases known with
  | some ty => exact ⟨ty, rfl⟩
  | none =>
    unfold resolve resolveEscaper at h
    simp [hdrop] at h

/-- A name that is no asset hook leaves its result, or it is left out behind a call. -/
theorem yields_identifier_value (argc : Nat) {name : String} (hhook : isHook name = false)
    (hdrop : c.options.dropComments) (hprint : s.noPrint = false) :
    Yields (identifier c pos argc f name) s fun g _ => EndsInValue g.instrs := by
  intro g s' hrun
  rw [identifier_eq hhook, hprint] at hrun
  cases hresolve : resolve c.options false (knownOperand s.tables argc f) name with
  | none =>
    rw [hresolve] at hrun
    cases hrun
    obtain ⟨ty, hknown⟩ := exists_of_resolve_eq_none hdrop hresolve
    obtain ⟨-, front, count, index, function, hf, -⟩ := exists_of_knownOperand hknown
    exact ⟨front, .func count index, hf, Nat.one_pos⟩
  | some name' =>
    rw [hresolve] at hrun
    cases hfunction : c.registry.get? name' with
    | none =>
      simp only [callNamed, hfunction] at hrun
      cases hrun
    | some function =>
      obtain ⟨index, rfl, -⟩ := yields_callNamed hfunction g s' hrun
      exact endsInValue_push f Nat.one_pos

mutual

/-- The code of an operand ends with a value if its parentheses are filled. -/
theorem yields_operand_value (hdrop : c.options.dropComments) (argc : Nat) :
    ∀ (a : Operand) (f : Fragment) (s : State), s.Ready c → NoHooks a.names → a.isFilled →
      Yields (operand c argc f a) s fun g _ => EndsInValue g.instrs
  | .bool pos b, f, s, _, _, _ =>
    .bind (yields_pushValue_value f (.bool b)) fun _ _ hends => yields_pure hends
  | .number n, f, s, _, _, _ => by
    unfold operand
    split
    · exact .bind (yields_pushValue_value f _) fun _ _ hends => yields_pure hends
    · exact yields_fail
  | .string pos str, f, s, _, _, _ =>
    .bind (yields_self _) fun index _ _ => yields_pure (endsInValue_push f Nat.one_pos)
  | .nil pos, f, s, _, _, _ =>
    .bind (yields_pushValue_value f .nil) fun _ _ hends => yields_pure hends
  | .dot pos, f, s, _, _, _ => yields_pure (endsInValue_push f Nat.one_pos)
  | .field pos path, f, s, _, _, _ =>
    yields_markedFields_value (endsInValue_push f (i := .dot) Nat.one_pos) argc path pos
  | .chain pos inner path, f, s, hs, hnames, hfilled =>
    .bind (yields_operand_value hdrop 0 inner f s hs hnames hfilled) fun _ _ hinner =>
      yields_markedFields_value hinner argc path pos
  | .var v, f, s, _, _, _ =>
    .bind (yields_self _) fun name _ _ =>
      yields_markedFields_value (endsInValue_push f (i := .var name) Nat.one_pos) argc v.fields v.pos
  | .ident pos name, f, s, hs, hnames, _ =>
    .bind (yields_identifier_value argc (hnames name (List.mem_singleton_self name)) hdrop hs.noPrint)
      fun _ _ hends => yields_pure hends
  | .paren p, f, s, hs, hnames, hfilled => by
    cases hdecl : p.decl.getLast? with
    | some v =>
      unfold operand
      rw [hdecl]
      exact .bind (yields_self _) fun g _ _ => .bind (yields_self _) fun name _ _ =>
        yields_pure (endsInValue_push _ Nat.one_pos)
    | none =>
      have hnone : p.decl = [] := List.getLast?_eq_none_iff.mp hdecl
      unfold operand
      rw [hdecl]
      exact .bind (yields_pipeline_value hdrop p s hs hnames hfilled hnone) fun g _ hends =>
        yields_pure (Fragment.instrs_append f g ▸ hends.append_left f.instrs)

/-- The operand that is called comes last. -/
theorem yields_command_value (hdrop : c.options.dropComments) (chained : Bool) :
    ∀ (cmd : Command) (f : Fragment) (s : State), s.Ready c → NoHooks cmd.names → cmd.isFilled →
      Yields (command c chained f cmd) s fun g _ => EndsInValue g.instrs
  | .mk pos [], f, s, _, _, hfilled => nomatch hfilled
  | .mk pos (head :: rest), f, s, hs, hnames, hfilled => by
    obtain ⟨hhead, hrest⟩ := List.forall_mem_append.mp hnames
    simp only [Command.isFilled, Bool.and_eq_true] at hfilled
    unfold command
    simp only
    split
    · refine .bind (.bind (yields_ready_operands 0 rest f s hrest) fun g s₁ hadds => ?_) fun g _ hends =>
        yields_pure hends
      exact yields_operand_value hdrop _ head g s₁ (hadds.stays.ready hs) hhead hfilled.1
    · exact yields_fail

/-- The code of commands ends with a value if there are any and their parentheses are filled. -/
theorem yields_commands_value (hdrop : c.options.dropComments) (chained : Bool) :
    ∀ (cmds : List Command) (f : Fragment) (s : State), s.Ready c → NoHooks (Command.allNames cmds) →
      Command.allFilled cmds → (cmds = [] → EndsInValue f.instrs) →
      Yields (commands c chained f cmds) s fun g _ => EndsInValue g.instrs
  | [], f, s, _, _, _, hends => yields_pure (hends rfl)
  | cmd :: rest, f, s, hs, hnames, hfilled, _ => by
    obtain ⟨hcmd, hrest⟩ := List.forall_mem_append.mp hnames
    simp only [Command.allFilled, Bool.and_eq_true] at hfilled
    intro g s' hrun
    obtain ⟨g₁, s₁, hfirst, hlater⟩ := bind_eq_ok.mp hrun
    have hready := (yields_ready_command chained cmd f s hcmd g₁ s₁ hfirst).stays.ready hs
    have hends := yields_command_value hdrop chained cmd f s hs hcmd hfilled.1 g₁ s₁ hfirst
    exact yields_commands_value hdrop true rest g₁ s₁ hready hrest hfilled.2 (fun _ => hends) g s' hlater

/-- A pipeline that binds no variables leaves the value of its last command. -/
theorem yields_pipeline_value (hdrop : c.options.dropComments) :
    ∀ (pipe : Pipeline) (s : State), s.Ready c → NoHooks pipe.names → pipe.isFilled → pipe.decl = [] →
      Yields (pipeline c true pipe) s fun g _ => EndsInValue g.instrs
  | .mk pos assign decl [], s, _, _, hfilled, _ => nomatch hfilled
  | .mk pos assign decl (cmd :: rest), s, hs, hnames, hfilled, hdecl => by
    obtain rfl : decl = [] := hdecl
    have hall : Command.allFilled (cmd :: rest) := hfilled
    refine .bind (yields_commands_value hdrop false (cmd :: rest) .empty s hs hnames hall nofun)
      fun body s₁ hbody => ?_
    exact .bind (yields_fold_value hbody) fun g s₂ hg => yields_pure hg

end

/-- Where the code of commands has ended, there is a value for the command behind them. -/
theorem le_length_of_commands_eq_ok {cmds : List Command} (hdrop : c.options.dropComments)
    (hs : s.Ready c) (hnames : NoHooks (Command.allNames cmds)) (hfilled : Command.allFilled cmds)
    (hrun : commands c false .empty cmds s = .ok (f, s')) {schema : Schema} {t : Tables}
    {l l' : Machine} (hdone : l.steps schema t f.instrs = .done l') :
    (!cmds.isEmpty).toNat ≤ l'.stack.length := by
  cases cmds with
  | nil => exact Nat.zero_le _
  | cons cmd rest =>
    obtain ⟨code, hcode, hstays, hresolved⟩ :=
      yields_ready_commands false (cmd :: rest) .empty s hnames f s' hrun
    obtain rfl : f.instrs = code := hcode
    have hstraight : Straight f.instrs := fun i hi => (hresolved hs i hi).isStraight
    have hends := yields_commands_value hdrop false (cmd :: rest) .empty s hs hnames hfilled
      (fun hnil => (List.cons_ne_nil cmd rest hnil).elim) f s' hrun
    exact List.length_pos_iff.mpr (Machine.stack_ne_nil_of_steps hstraight hends hdone)

end Compile
end Stencil
