import Stencil.Proofs.ActionSites
import Stencil.Proofs.Commands
import Stencil.Proofs.EscaperCalls

/-!
# Escapers that are always called

The code that an action would have if the compiler knew nothing about the operands of escapers, so that
each escaper is called. It is compared with the code that the action has, one command at a time: up to
each command both codes end in the same way, but for an integer that may be a text of its digits.
-/

namespace Stencil

namespace Compile

/-- A call of the function that a name stands for. -/
def callNamed (c : Context) (pos : Pos) (argc : Nat) (f : Fragment) (name : String) : M Fragment := do
  match c.registry.get? name with
  | none => fail c pos (.undefinedFunction name)
  | some function =>
    let index ← addEntry c pos "function" (·.addFunc function)
    return f.push (.func argc index)

/-- A function name: an asset hook, or a call whatever is known about its operand. -/
def plainIdentifier (c : Context) (pos : Pos) (argc : Nat) (f : Fragment) (name : String) :
    M Fragment :=
  match assetBytes? c.set name with
  | some _ => identifier c pos argc f name
  | none => callNamed c pos argc f name

/-- The code of a command. A bare name, which is what escapers at the end of a pipeline are, is always
called. -/
def plainCommand (c : Context) (chained : Bool) (f : Fragment) : Command → M Fragment
  | .mk pos [.ident namePos name] => do
    return ((← plainIdentifier c namePos chained.toNat f name).mark namePos).mark pos
  | cmd => command c chained f cmd

/-- The code of commands in sequence, where bare names are always called. -/
def plainCommands (c : Context) (chained : Bool) (f : Fragment) : List Command → M Fragment
  | [] => return f
  | cmd :: rest => do
    let f ← plainCommand c chained f cmd
    plainCommands c true f rest

/-- The code of a pipeline, where bare names are always called. -/
def plainPipeline (c : Context) : Pipeline → M Fragment
  | .mk pos assign decl cmds => do
    let body ← plainCommands c false .empty cmds
    let body ← fold c pos body
    let body ← bindAll c assign body decl
    return body.mark pos

/-- The code of an action, where bare names are always called. -/
def plainAction (c : Context) (pos : Pos) (f : Fragment) (pipe : Pipeline) : M Fragment := do
  let g ← plainPipeline c pipe
  let s ← get
  let g := if pipe.decl.isEmpty && !s.noPrint then g.push .print else g
  set { s with noPrint := false }
  settle c pos f g s.tables

end Compile

/-- The name that a command consists of. -/
def Command.bareName? : Command → Option String
  | .mk _ [.ident _ name] => some name
  | _ => none

/-- A command with a bare name is an identifier alone. -/
theorem Command.exists_of_bareName? {cmd : Command} {name : String} (h : cmd.bareName? = some name) :
    ∃ pos namePos, cmd = .mk pos [.ident namePos name] := by
  unfold bareName? at h
  split at h
  · cases h
    exact ⟨_, _, rfl⟩
  · cases h

namespace Compile

variable {c : Context} {pos : Pos} {s s' s₁ s₁' : State} {f f' g g' : Fragment} {argc : Nat}
  {name name' : String} {function : Function} {chained : Bool} {wf : Prop}

/-- A single command is compiled by itself. -/
theorem commands_singleton (cmd : Command) : commands c chained f [cmd] = command c chained f cmd := by
  simp [commands]

/-- A single command is compiled by itself, also if bare names are always called. -/
theorem plainCommands_singleton (cmd : Command) :
    plainCommands c chained f [cmd] = plainCommand c chained f cmd := by
  simp [plainCommands]

/-! ### Names that are no escapers -/

/-- A bare name is compiled to its call and located twice. -/
theorem command_bare (c : Context) (chained : Bool) (f : Fragment) (pos namePos : Pos) (name : String) :
    command c chained f (.mk pos [.ident namePos name]) = (do
      return ((← identifier c namePos chained.toNat f name).mark namePos).mark pos) := by
  cases chained <;> simp [command, operands, operand, Tables.halfWordLimit]

/-- A name that is no asset hook is called, or what an escaper becomes is. -/
theorem identifier_eq (hhook : isHook name = false) (s : State) :
    identifier c pos argc f name s =
      (match resolve c.options s.noPrint (knownOperand s.tables argc f) name with
        | none => pure f
        | some name => callNamed c pos argc f name) s := by
  unfold identifier
  rw [assetBytes?_eq_none hhook]
  rfl

/-- What is no asset hook is called by its name. -/
theorem plainIdentifier_eq (hhook : isHook name = false) :
    plainIdentifier c pos argc f name = callNamed c pos argc f name := by
  unfold plainIdentifier
  rw [assetBytes?_eq_none hhook]

/-- A name that is no escaper is called in any case. -/
theorem plainIdentifier_eq_identifier (hhook : isHook name = false) (hname : isEscaper name = false) :
    plainIdentifier c pos argc f name = identifier c pos argc f name := by
  funext s
  have hresolve (known : Option ParamType) : resolve c.options s.noPrint known name = some name := by
    rw [resolve, hname, if_neg Bool.false_ne_true]
  rw [plainIdentifier_eq hhook, identifier_eq hhook, hresolve]

/-- Without asset hooks and escapers there is nothing to choose, so always calling changes nothing. -/
theorem plainCommand_eq_command : ∀ cmd : Command, NoHooks cmd.names →
    (∀ name ∈ cmd.names, isEscaper name = false) →
    plainCommand c chained f cmd = command c chained f cmd
  | .mk pos args, hhooks, hnames => by
    unfold plainCommand
    split
    · next pos' namePos name heq =>
      cases heq
      have hmem : name ∈ (Command.mk pos [.ident namePos name]).names := List.mem_singleton_self name
      rw [command_bare, plainIdentifier_eq_identifier (hhooks name hmem) (hnames name hmem)]
    · rfl

/-- Commands that name no escaper are compiled as they are. -/
theorem plainCommands_eq_commands {cmds : List Command} (hhooks : NoHooks (Command.allNames cmds))
    (hnames : ∀ name ∈ Command.allNames cmds, isEscaper name = false) :
    plainCommands c chained f cmds = commands c chained f cmds := by
  induction cmds generalizing chained f with
  | nil => rfl
  | cons cmd rest ih =>
    obtain ⟨hhook, hhooks⟩ := List.forall_mem_append.mp hhooks
    obtain ⟨hname, hnames⟩ := List.forall_mem_append.mp hnames
    rw [plainCommands, commands, plainCommand_eq_command cmd hhook hname]
    exact congrArg (_ >>= ·) (funext fun g => ih hhooks hnames)

/-- Commands are compiled one after the other. -/
theorem plainCommands_append (before rest : List Command) :
    plainCommands c chained f (before ++ rest) = (do
      let g ← plainCommands c chained f before
      plainCommands c (chained || !before.isEmpty) g rest) := by
  induction before generalizing chained f with
  | nil => simp [plainCommands]
  | cons cmd before ih => simp [plainCommands, ih]

/-! ### Calls -/

/-- Whether a call of a function has been added to a fragment. -/
def AppendsCall (c : Context) (argc : Nat) (function : Function) (f : Fragment) (s : State)
    (f' : Fragment) (s' : State) : Prop :=
  ∃ index, f' = f.push (.func argc index) ∧ StaysReady c s s' ∧
    (s.Ready c → s'.tables.funcs[index]? = some function)

/-- Calling a function by its name appends the call. -/
theorem yields_callNamed (hfunction : c.registry.get? name = some function) :
    Yields (callNamed c pos argc f name) s (AppendsCall c argc function f s) := by
  unfold callNamed
  rw [hfunction]
  exact .bind (yields_ready_addFunc hfunction) fun index s' hindex =>
    yields_pure ⟨index, rfl, hindex.1, hindex.2⟩

/-- Whether the code in front of a call with `argc` operands refers to entries of the tables, and
leaves the operands if the pipeline is well formed. -/
structure Part (c : Context) (wf : Prop) (argc : Nat) (f : Fragment) (s : State) : Prop where
  ready : s.Ready c
  resolved : ∀ i ∈ f.instrs, i.Resolved s.tables
  leaves : wf → Leaves f.instrs 0 argc

/-- The code in front of a call is straight-line code. -/
theorem Part.straight (h : Part c wf argc f s) : Straight f.instrs :=
  fun i hi => (h.resolved i hi).isStraight

/-- A mark changes nothing in the code in front of a call. -/
theorem Part.mark (h : Part c wf argc f s) (pos : Pos) : Part c wf argc (f.mark pos) s :=
  ⟨h.ready, h.resolved, h.leaves⟩

namespace AppendsCall

/-- A call that has been appended leaves the tables ready. -/
theorem stays (h : AppendsCall c argc function f s f' s') : StaysReady c s s' := by
  obtain ⟨-, -, hstays, -⟩ := h
  exact hstays

/-- Behind a call that has been appended there is its result. -/
theorem part (h : AppendsCall c argc function f s f' s') (hf : Part c wf argc f s) :
    Part c wf 1 f' s' := by
  obtain ⟨index, rfl, hstays, hentry⟩ := h
  refine ⟨hstays.ready hf.ready, ?_, fun hwf => ?_⟩ <;> rw [Fragment.instrs_push]
  · refine List.forall_mem_append.mpr ⟨fun i hi => (hf.resolved i hi).mono hstays.extends_, ?_⟩
    exact List.forall_mem_singleton.mpr (Tables.lt_size_of_entry (hentry hf.ready))
  · exact (hf.leaves hwf).append leaves_singleton

/-- The call is made with what the code in front of it leaves. -/
theorem steps (h : AppendsCall c argc function f s f' s') (hs : s.Ready c) {u : Tables}
    (hu : s'.tables.Extends u) (m : Machine) :
    m.steps c.schema u f'.instrs =
      (m.steps c.schema u f.instrs).bind (·.called function argc) := by
  obtain ⟨index, rfl, -, hentry⟩ := h
  have hcall : (fun l : Machine => l.steps c.schema u [.func argc index]) =
      (·.called function argc) :=
    funext fun l => Machine.steps_func (hu.funcs _ _ (hentry hs)) l
  rw [Fragment.instrs_push, Machine.steps_append_eq_bind, hcall]

/-- The result of the function is known to be of its declared type. -/
theorem knownOperand (h : AppendsCall c argc function f s f' s') (hs : s.Ready c) :
    knownOperand s'.tables 1 f' = some function.sig.returns := by
  obtain ⟨index, rfl, -, hentry⟩ := h
  simp only [Compile.knownOperand, Fragment.last?, Fragment.push, Array.back?_push, hentry hs,
    Option.map_some, if_true]

/-- A call adds no field access. -/
theorem fields (h : AppendsCall c argc function f s f' s') :
    f'.instrs.any Instr.isField = f.instrs.any Instr.isField := by
  obtain ⟨index, rfl, -⟩ := h
  simp [Instr.isField]

/-- A call pushes its result. -/
theorem pushed (h : AppendsCall c argc function f s f' s') :
    Fragment.pushed f'.instrs = Fragment.pushed f.instrs + 1 := by
  obtain ⟨index, rfl, -⟩ := h
  rw [Fragment.instrs_push, Fragment.pushed, Fragment.total_append]
  rfl

/-- A call pops its arguments. -/
theorem popped (h : AppendsCall c argc function f s f' s') :
    Fragment.popped f'.instrs = Fragment.popped f.instrs + argc := by
  obtain ⟨index, rfl, -⟩ := h
  rw [Fragment.instrs_push, Fragment.popped, Fragment.total_append]
  rfl

end AppendsCall

/-! ### Both codes -/

/-- Whether the codes of two fragments end in related ways, and whether the same is known about the
number of values they leave. -/
structure Stage (c : Context) (wf : Prop) (argc : Nat) (R : Outcome → Outcome → Prop) (f : Fragment)
    (s : State) (g : Fragment) (s' : State) : Prop where
  left : Part c wf argc f s
  right : Part c wf argc g s'
  fields : f.instrs.any Instr.isField = g.instrs.any Instr.isField
  count : Fragment.pushed f.instrs + Fragment.popped g.instrs =
    Fragment.pushed g.instrs + Fragment.popped f.instrs
  agree : ∀ u u' : Tables, s.tables.Extends u → s'.tables.Extends u' → ∀ m : Machine,
    R (m.steps c.schema u f.instrs) (m.steps c.schema u' g.instrs)

namespace Stage

variable {R R' : Outcome → Outcome → Prop} {left right : Function}

/-- What relates the ends of two codes may be weakened. -/
theorem mono (h : Stage c wf argc R f s g s') (hR : ∀ o o', R o o' → R' o o') :
    Stage c wf argc R' f s g s' :=
  ⟨h.left, h.right, h.fields, h.count, fun u u' hu hu' m => hR _ _ (h.agree u u' hu hu' m)⟩

/-- A function is called on both sides. -/
theorem call (h : Stage c wf argc R f s g s') (hleft : AppendsCall c argc left f s f' s₁)
    (hright : AppendsCall c argc right g s' g' s₁')
    (hR : ∀ o o', R o o' → R' (o.bind (·.called left argc)) (o'.bind (·.called right argc))) :
    Stage c wf 1 R' f' s₁ g' s₁' where
  left := hleft.part h.left
  right := hright.part h.right
  fields := by rw [hleft.fields, hright.fields, h.fields]
  count := by
    have := h.count
    rw [hleft.pushed, hleft.popped, hright.pushed, hright.popped]
    omega
  agree u u' hu hu' m := by
    rw [hleft.steps h.left.ready hu, hright.steps h.right.ready hu']
    exact hR _ _ (h.agree u u' (hleft.stays.extends_.trans hu) (hright.stays.extends_.trans hu') m)

/-- A function with one operand is called on the right side only. -/
theorem skip (h : Stage c wf 1 R f s g s') (hright : AppendsCall c 1 right g s' g' s₁')
    (hR : ∀ o o', R o o' → R' o (o'.bind (·.called right 1))) : Stage c wf 1 R' f s g' s₁' where
  left := h.left
  right := hright.part h.right
  fields := by rw [hright.fields, h.fields]
  count := by
    have := h.count
    rw [hright.pushed, hright.popped]
    omega
  agree u u' hu hu' m := by
    rw [hright.steps h.right.ready hu']
    exact hR _ _ (h.agree u u' hu (hright.stays.extends_.trans hu') m)

end Stage

/-! ### Escapers -/

open Builtin Outcome

/-- The markup escaper is left out behind integers and markup, and gives way to its variant behind strings. -/
theorem resolve_htmlEscaper (options : CompileOptions) (known : Option ParamType) :
    resolve options false known htmlEscaperName =
      match known with
      | some .int | some (.text .html) => none
      | some (.text .plain) => some htmlStringEscaperName
      | _ => some htmlEscaperName := by
  have hescaper : isEscaper htmlEscaperName = true := by decide +kernel
  have hcomment : htmlEscaperName ≠ commentEscaperName := by decide +kernel
  simp only [resolve, hescaper, if_true, resolveEscaper, Bool.false_eq_true, if_false, hcomment, false_and]
  cases known with
  | none => rfl
  | some ty =>
    cases ty with
    | text kind => cases kind <;> rfl
    | _ => rfl

/-- The script escaper is left out behind integers and script source. -/
theorem resolve_jsEscaper (options : CompileOptions) (known : Option ParamType) :
    resolve options false known jsEscaperName =
      match known with
      | some .int | some (.text .js) => none
      | _ => some jsEscaperName := by
  have hescaper : isEscaper jsEscaperName = true := by decide +kernel
  have hcomment : jsEscaperName ≠ commentEscaperName := by decide +kernel
  have hhtml : jsEscaperName ≠ htmlEscaperName := by decide +kernel
  simp only [resolve, hescaper, if_true, resolveEscaper, Bool.false_eq_true, if_false, hcomment, false_and,
    hhtml]
  cases known with
  | none => rfl
  | some ty =>
    cases ty with
    | text kind => cases kind <;> rfl
    | _ => rfl

/-- An operand that is known is the result of the function called last. -/
theorem exists_of_knownOperand {t : Tables} {ty : ParamType} (h : knownOperand t argc f = some ty) :
    argc = 1 ∧ ∃ front count index function, f.instrs = front ++ [.func count index] ∧
      t.funcs[index]? = some function ∧ function.sig.returns = ty := by
  unfold knownOperand at h
  split at h
  · next hargc =>
    refine ⟨hargc, ?_⟩
    split at h
    · next count index hlast =>
      rw [Fragment.last?_eq] at hlast
      obtain ⟨front, hfront⟩ := List.getLast?_eq_some_iff.mp hlast
      obtain ⟨function, hfunction, hty⟩ := Option.map_eq_some_iff.mp h
      exact ⟨front, count, index, function, hfront, hfunction, hty⟩
    · cases h
  · cases h

namespace Stage

variable {known : Option ParamType}

/-- An escaper is called on the right side; what becomes of it on the left side has to do the same, as
far as is known. -/
theorem escaper {R : Outcome → Outcome → Prop} (h : Stage c wf argc R f s g s')
    (hhook : isHook name = false) (hknown : knownOperand s.tables argc f = known)
    (hleft : identifier c pos argc f name s = .ok (f', s₁))
    (hright : AppendsCall c argc function g s' g' s₁')
    (hskip : resolve c.options false known name = none → argc = 1 ∧ ∀ o o', R o o' →
      Agrees known o (o'.bind (·.called function 1)))
    (hcall : ∀ name' left, resolve c.options false known name = some name' →
      c.registry.get? name' = some left → ∀ o o', R o o' →
        Agrees (some left.sig.returns) (o.bind (·.called left argc)) (o'.bind (·.called function argc))) :
    Stage c wf 1 (Agrees (knownOperand s₁.tables 1 f')) f' s₁ g' s₁' := by
  rw [identifier_eq hhook, h.left.ready.noPrint, hknown] at hleft
  cases hresolve : resolve c.options false known name with
  | none =>
    -- Nothing is added on the left side, so its operand is known as before.
    rw [hresolve] at hleft
    cases hleft
    obtain ⟨rfl, hagrees⟩ := hskip hresolve
    rw [hknown]
    exact h.skip hright hagrees
  | some name' =>
    rw [hresolve] at hleft
    cases hfunction : c.registry.get? name' with
    | none =>
      simp only [callNamed, hfunction] at hleft
      cases hleft
    | some left =>
      have hadds := yields_callNamed hfunction f' s₁ hleft
      rw [hadds.knownOperand h.left.ready]
      exact h.call hadds hright (hcall name' left hresolve hfunction)

/-- The escaper for script source behind code that is the same on both sides. -/
theorem js (h : Stage c wf argc (Same known) f s g s')
    (hknown : knownOperand s.tables argc f = known) (hescapers : c.registry.HasEscapers c.schema)
    (hleft : identifier c pos argc f jsEscaperName s = .ok (f', s₁))
    (hright : AppendsCall c argc (jsFunction c.schema) g s' g' s₁') :
    Stage c wf 1 (Agrees (knownOperand s₁.tables 1 f')) f' s₁ g' s₁' := by
  have hname : c.registry.get? jsEscaperName = some (jsFunction c.schema) :=
    hescapers _ (jsFunction_mem c.schema)
  refine h.escaper (by decide +kernel) hknown hleft hright (fun hresolve => ?_)
    fun name' left hresolve hget o o' ho => ?_
  · rw [resolve_jsEscaper] at hresolve
    split at hresolve
    · exact ⟨(exists_of_knownOperand hknown).1, fun o o' ho => ho.js_int⟩
    · exact ⟨(exists_of_knownOperand hknown).1, fun o o' ho => ho.js_js⟩
    · cases hresolve
  · rw [resolve_jsEscaper] at hresolve
    split at hresolve
    · cases hresolve
    · cases hresolve
    · cases hresolve
      rw [hname] at hget
      cases hget
      exact ho.call (keepsType_escapers c.schema _ (jsFunction_mem c.schema)) argc

/-- The escaper for markup behind code that agrees on both sides. -/
theorem html (h : Stage c wf argc (Agrees known) f s g s')
    (hknown : knownOperand s.tables argc f = known) (hescapers : c.registry.HasEscapers c.schema)
    (hleft : identifier c pos argc f htmlEscaperName s = .ok (f', s₁))
    (hright : AppendsCall c argc (htmlFunction c.schema) g s' g' s₁') :
    Stage c wf 1 (Agrees (knownOperand s₁.tables 1 f')) f' s₁ g' s₁' := by
  have hname : c.registry.get? htmlEscaperName = some (htmlFunction c.schema) :=
    hescapers _ (htmlFunction_mem c.schema)
  have hstring : c.registry.get? htmlStringEscaperName = some htmlStringFunction :=
    hescapers _ (htmlStringFunction_mem c.schema)
  refine h.escaper (by decide +kernel) hknown hleft hright (fun hresolve => ?_)
    fun name' left hresolve hget o o' ho => ?_
  · rw [resolve_htmlEscaper] at hresolve
    split at hresolve
    · exact ⟨(exists_of_knownOperand hknown).1, fun o o' ho => ho.html_int⟩
    · exact ⟨(exists_of_knownOperand hknown).1, fun o o' ho => ho.html_html⟩
    · cases hresolve
    · cases hresolve
  · rw [resolve_htmlEscaper] at hresolve
    split at hresolve
    · cases hresolve
    · cases hresolve
    · cases hresolve
      rw [hstring] at hget
      cases hget
      obtain ⟨rfl, -⟩ := exists_of_knownOperand hknown
      exact ho.html_plain
    · next hint _ _ =>
      -- Only an integer could differ on both sides, and then the escaper would have been left out.
      cases hresolve
      rw [hname] at hget
      cases hget
      exact (ho.same_of_ne hint).call (keepsType_escapers c.schema _ (htmlFunction_mem c.schema)) argc

end Stage

/-! ### Commands in front of escapers -/

/-- The commands in front of others are well formed if all of them are. -/
theorem allWellFormed_append {before rest : List Command} (h : Command.allWellFormed (before ++ rest)) :
    Command.allWellFormed before := by
  induction before with
  | nil => rfl
  | cons cmd before ih =>
    rw [List.cons_append, Command.allWellFormed, Bool.and_eq_true] at h
    rw [Command.allWellFormed, h.1, ih h.2]
    rfl

/-- Commands at the start of a well-formed pipeline leave one value, if there are any. -/
theorem leaves_commands {pipePos : Pos} {assign : Bool} {decl : List Variable}
    {earlier last : List Command} (hrun : commands c false .empty earlier s = .ok (f, s'))
    (hs : s.noPrint = false) (hwf : (Pipeline.mk pipePos assign decl (earlier ++ last)).wellFormed 1) :
    Leaves f.instrs 0 (!earlier.isEmpty).toNat := by
  cases earlier with
  | nil =>
    cases hrun
    exact leaves_nil 0
  | cons cmd rest =>
    rw [List.cons_append, Pipeline.wellFormed, Bool.and_eq_true, Bool.and_eq_true] at hwf
    obtain ⟨⟨-, hcmd⟩, hrest⟩ := hwf
    obtain ⟨g, s₁, hfirst, hlater⟩ := bind_eq_ok.mp hrun
    obtain ⟨code, hcode, -, hleaves⟩ := (ensures_command false cmd .empty s).of_ok hfirst
    obtain ⟨code', hcode', -, hleaves'⟩ := (ensures_commands rest g s₁).of_ok hlater
    obtain ⟨hs₁, hleaves⟩ := hleaves hcmd hs
    have hcode : g.instrs = code := hcode
    rw [hcode', hcode]
    exact hleaves.append (hleaves' (allWellFormed_append hrest) hs₁).2

/-- The result of the function called last is of its declared type. -/
theorem tops_knownOperand (hs : s.Ready c) (hkeeps : c.registry.KeepsTypes) {u : Tables}
    (hu : s.tables.Extends u) (m : Machine) :
    (m.steps c.schema u f.instrs).Tops (knownOperand s.tables argc f) := by
  intro l ty hdone hknown
  -- The code ends with a call, so the value on top is what its function has returned.
  obtain ⟨rfl, front, count, index, function, hfront, hfunction, rfl⟩ := exists_of_knownOperand hknown
  have hkeeps := hkeeps function.name function (hs.registered.funcs index function hfunction)
  have hcall : (fun l : Machine => l.steps c.schema u [.func count index]) =
      (·.called function count) := funext fun l => Machine.steps_func (hu.funcs _ _ hfunction) l
  rw [hfront, Machine.steps_append_eq_bind, hcall] at hdone
  exact hkeeps.tops count _ l _ hdone rfl

namespace Stage

/-- The code of commands that name no escaper is the same on both sides. -/
theorem commands {pipePos : Pos} {assign : Bool} {decl : List Variable} {earlier last : List Command}
    (hs : s.Ready c) (hkeeps : c.registry.KeepsTypes) (hhooks : NoHooks (Command.allNames earlier))
    (hrun : Compile.commands c false .empty earlier s = .ok (f, s')) :
    Stage c ((Pipeline.mk pipePos assign decl (earlier ++ last)).wellFormed 1)
      (!earlier.isEmpty).toNat (Same (knownOperand s'.tables (!earlier.isEmpty).toNat f)) f s' f s' := by
  obtain ⟨code, hcode, hstays, hresolved⟩ := yields_ready_commands false earlier .empty s hhooks f s' hrun
  have hcode : f.instrs = code := hcode
  have hs' := hstays.ready hs
  have hresolved : ∀ i ∈ f.instrs, i.Resolved s'.tables := hcode ▸ hresolved hs
  have hpart : Part c ((Pipeline.mk pipePos assign decl (earlier ++ last)).wellFormed 1)
      (!earlier.isEmpty).toNat f s' := ⟨hs', hresolved, leaves_commands hrun hs.noPrint⟩
  refine ⟨hpart, hpart, rfl, rfl, fun u u' hu hu' m => ?_⟩
  exact ⟨Machine.steps_of_resolved hresolved hu hu' m, tops_knownOperand hs' hkeeps hu m⟩

end Stage

/-! ### Commands that are escapers -/

/-- Whether commands are the escapers that a pipeline ends with: that for markup, that for script
source, or both. -/
def AreEscapers (last : List Command) : Prop :=
  last.map Command.bareName? ∈ [[some htmlEscaperName], [some jsEscaperName],
    [some jsEscaperName, some htmlEscaperName]]

/-- A command that is a bare name on both sides. -/
theorem bare_eq_ok {cmd : Command} (hcmd : cmd.bareName? = some name) (hhook : isHook name = false)
    (hfunction : c.registry.get? name = some function)
    (hleft : command c chained f cmd s = .ok (f', s₁))
    (hright : plainCommand c chained g cmd s' = .ok (g', s₁')) :
    ∃ pos namePos f₁ g₁, identifier c namePos chained.toNat f name s = .ok (f₁, s₁) ∧
      AppendsCall c chained.toNat function g s' g₁ s₁' ∧
      f' = (f₁.mark namePos).mark pos ∧ g' = (g₁.mark namePos).mark pos := by
  obtain ⟨pos, namePos, rfl⟩ := Command.exists_of_bareName? hcmd
  rw [command_bare] at hleft
  obtain ⟨f₁, t, hidentifier, hpure⟩ := bind_eq_ok.mp hleft
  cases hpure
  obtain ⟨g₁, t', hplain, hpure⟩ := bind_eq_ok.mp hright
  cases hpure
  rw [plainIdentifier_eq hhook] at hplain
  exact ⟨pos, namePos, f₁, g₁, hidentifier, yields_callNamed hfunction g₁ _ hplain, rfl, rfl⟩

namespace Stage

variable {known : Option ParamType} {cmd : Command} {last : List Command}

/-- Marks change nothing in how two codes end. -/
theorem mark {R : Outcome → Outcome → Prop} (h : Stage c wf argc R f s g s') (pos pos' : Pos) :
    Stage c wf argc R (f.mark pos) s (g.mark pos') s' where
  left := h.left.mark pos
  right := h.right.mark pos'
  fields := h.fields
  count := h.count
  agree := h.agree

/-- A script escaper that may be left out ends as one that is called. -/
theorem command_js
    (h : Stage c wf chained.toNat (Same (knownOperand s.tables chained.toNat f)) f s g s')
    (hescapers : c.registry.HasEscapers c.schema) (hcmd : cmd.bareName? = some jsEscaperName)
    (hleft : command c chained f cmd s = .ok (f', s₁))
    (hright : plainCommand c chained g cmd s' = .ok (g', s₁')) :
    Stage c wf 1 (Agrees (knownOperand s₁.tables 1 f')) f' s₁ g' s₁' := by
  obtain ⟨pos, namePos, f₁, g₁, hidentifier, hcall, rfl, rfl⟩ :=
    bare_eq_ok hcmd (by decide +kernel) (hescapers _ (jsFunction_mem c.schema)) hleft hright
  exact ((h.js rfl hescapers hidentifier hcall).mark _ _).mark _ _

/-- A markup escaper that may be left out or changed ends as one that is called. -/
theorem command_html
    (h : Stage c wf chained.toNat (Agrees (knownOperand s.tables chained.toNat f)) f s g s')
    (hescapers : c.registry.HasEscapers c.schema) (hcmd : cmd.bareName? = some htmlEscaperName)
    (hleft : command c chained f cmd s = .ok (f', s₁))
    (hright : plainCommand c chained g cmd s' = .ok (g', s₁')) :
    Stage c wf 1 (Agrees (knownOperand s₁.tables 1 f')) f' s₁ g' s₁' := by
  obtain ⟨pos, namePos, f₁, g₁, hidentifier, hcall, rfl, rfl⟩ :=
    bare_eq_ok hcmd (by decide +kernel) (hescapers _ (htmlFunction_mem c.schema)) hleft hright
  exact ((h.html rfl hescapers hidentifier hcall).mark _ _).mark _ _

/-- The escapers at the end of a pipeline behind code that is the same on both sides. -/
theorem escapers
    (h : Stage c wf chained.toNat (Same (knownOperand s.tables chained.toNat f)) f s f s)
    (hescapers : c.registry.HasEscapers c.schema) (hlast : AreEscapers last)
    (hleft : Compile.commands c chained f last s = .ok (f', s₁))
    (hright : plainCommands c chained f last s = .ok (g', s₁')) :
    ∃ known, Stage c wf 1 (Agrees known) f' s₁ g' s₁' := by
  have hsame : Stage c wf chained.toNat (Agrees (knownOperand s.tables chained.toNat f)) f s f s :=
    h.mono fun o o' ho => ho.agrees
  unfold AreEscapers at hlast
  simp only [List.mem_cons, List.not_mem_nil, or_false] at hlast
  rcases hlast with hnames | hnames | hnames
  · obtain ⟨cmd, rest, rfl, hcmd, hrest⟩ := List.map_eq_cons_iff.mp hnames
    obtain rfl := List.map_eq_nil_iff.mp hrest
    rw [commands_singleton] at hleft
    rw [plainCommands_singleton] at hright
    exact ⟨_, hsame.command_html hescapers hcmd hleft hright⟩
  · obtain ⟨cmd, rest, rfl, hcmd, hrest⟩ := List.map_eq_cons_iff.mp hnames
    obtain rfl := List.map_eq_nil_iff.mp hrest
    rw [commands_singleton] at hleft
    rw [plainCommands_singleton] at hright
    exact ⟨_, h.command_js hescapers hcmd hleft hright⟩
  · obtain ⟨cmd, rest, rfl, hcmd, hrest⟩ := List.map_eq_cons_iff.mp hnames
    obtain ⟨cmd', rest', rfl, hcmd', hrest'⟩ := List.map_eq_cons_iff.mp hrest
    obtain rfl := List.map_eq_nil_iff.mp hrest'
    obtain ⟨f₁, t, hcommand, hafter⟩ := bind_eq_ok.mp hleft
    obtain ⟨g₁, t', hplain, hafter'⟩ := bind_eq_ok.mp hright
    rw [commands_singleton] at hafter
    rw [plainCommands_singleton] at hafter'
    have hjs : Stage c wf true.toNat (Agrees (knownOperand t.tables true.toNat f₁)) f₁ t g₁ t' :=
      h.command_js hescapers hcmd hcommand hplain
    exact ⟨_, hjs.command_html hescapers hcmd' hafter hafter'⟩

end Stage

end Compile
end Stencil
