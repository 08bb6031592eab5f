import Stencil.Proofs.EscaperChoice
import Stencil.Proofs.LastValues
import Stencil.Proofs.Truncation

/-!
# Dropped comments

If comments are dropped, an action that ends with the escaper of comments writes nothing: whatever the
commands in front of it leave, the escaper puts an empty text in its place. The code of the commands
does not write either, so all that is seen of them is how they fail. There is one exception: the
compiler leaves out each escaper behind a call that is declared to return an integer, and this is then
printed.
-/

namespace Stencil

/-- The output when a run ends. -/
def Outcome.sink : Outcome → Sink
  | done m => m.sink
  | failed _ sink _ => sink

/-- Whether code writes nothing and has one outcome on every machine: it fails as the code in front of a
call fails, and in no other way if a condition holds. The code in front is run on top of the same values,
with their depth marked if a `POP` goes back to it. -/
def Env.Drops (env : Env) (cond : Prop) (front : List Instr) (pop : Option Nat) (code : List Instr) :
    Prop :=
  ∀ m : Machine, ∃ r o, (∀ x, env.Runs front (m.within (m.frame.held pop)) x ↔ x = r) ∧
    (∀ x, env.Runs code m x ↔ x = o) ∧ o.sink = m.sink ∧ (r.Fails → o = r) ∧ (cond → o.Fails → o = r)

namespace Call

variable {name : String} {returns : ParamType}

/-- Operands of an untyped variadic tail can be anything. -/
theorem exists_coerceArgs (index : Nat) (args : List Value) :
    ∃ args', coerceArgs name ⟨[], some .any, returns⟩ index args = .ok args' := by
  induction args generalizing index with
  | nil => exact ⟨[], rfl⟩
  | cons v rest ih =>
    obtain ⟨rest', hrest⟩ := ih (index + 1)
    have hparam : Signature.param? ⟨[], some .any, returns⟩ index = some .any := rfl
    obtain ⟨w, hw⟩ : ∃ w, coerce? .any v = some w := by
      unfold coerce?
      split <;> exact ⟨_, rfl⟩
    refine ⟨w :: rest', ?_⟩
    simp only [coerceArgs, hparam, hw, hrest]
    rfl

/-- A call of a function that takes any number of operands gets to its body. -/
theorem exists_function_variadic {body : List Value → List Value → Except String Value}
    (args : List Value) :
    ∃ args', function (.variadic name [] returns body) args = returned name (body [] args') := by
  obtain ⟨args', hcoerced⟩ : ∃ args', coerceArgs name ⟨[], some .any, returns⟩ 0 args = .ok args' :=
    exists_coerceArgs 0 args
  have harity : checkArity name ⟨[], some .any, returns⟩ args.length = .ok () := by simp [checkArity]
  have hprepare : prepare name ⟨[], some .any, returns⟩ args = .ok args' := by
    rw [prepare, harity]
    exact hcoerced
  refine ⟨args', ?_⟩
  simp only [function, Function.variadic, hprepare]
  rfl

end Call

namespace Builtin

/-- The escaper for comments. -/
def commentFunction : Function := .variadic commentEscaperName [] (.text .html) fun _ _ => .ok (.html "")

/-- The comment escaper is one of the escapers. -/
theorem commentFunction_mem (schema : Schema) : commentFunction ∈ escapers schema :=
  List.mem_cons_of_mem _ (List.mem_cons_of_mem _ (List.mem_cons_of_mem _ List.mem_cons_self))

/-- Whatever its operands are, the escaper for comments gives an empty text. -/
theorem call_commentFunction (args : List Value) :
    Call.function commentFunction args = .ok (.html "") := by
  obtain ⟨args', hcall⟩ := Call.exists_function_variadic args
  exact hcall

end Builtin

/-- Without asset hooks no instruction of a pipeline writes. -/
theorem Instr.Resolved.writes {t : Tables} {i : Instr} (h : i.Resolved t) : i.writes = false := by
  cases i <;> first | rfl | exact h.elim

namespace Machine

variable {schema : Schema} {t u : Tables} {code : List Instr} {pop : Option Nat}
  {l l' m : Machine} {argc : Nat}

/-- Code in which no instruction writes leaves the sink as it is. -/
theorem sink_steps_of_writes (schema : Schema) (u : Tables) (hcode : ∀ i ∈ code, i.writes = false)
    (m : Machine) : (m.steps schema u code).sink = m.sink := by
  induction code generalizing m with
  | nil => rfl
  | cons i code ih =>
    rw [List.forall_mem_cons] at hcode
    have hfirst : (m.step schema u i).machine.sink = m.sink := sink_step_of_writes hcode.1 m
    rw [steps]
    cases hstep : m.step schema u i with
    | next m' | jump k m' =>
      rw [hstep] at hfirst
      exact (ih hcode.2 m').trans hfirst
    | fail e m' =>
      rw [hstep] at hfirst
      exact hfirst

/-- Without asset hooks a pipeline writes nothing. -/
theorem sink_steps_of_resolved (schema : Schema) (u : Tables) (hcode : ∀ i ∈ code, i.Resolved t)
    (m : Machine) : (m.steps schema u code).sink = m.sink :=
  sink_steps_of_writes schema u (fun i hi => (hcode i hi).writes) m

/-- The `POP` behind balanced code finds the values that it removes. -/
theorem exists_steps_popCode (hcode : Straight code) (hbalances : Fragment.Balances pop code)
    (h : (m.within (m.frame.held pop)).steps schema t code = .done l) :
    ∃ l', l.steps schema u (Compile.popCode pop) = .done l' ∧ l'.sink = l.sink := by
  match pop with
  | none => exact ⟨l, rfl, rfl⟩
  | some 0 =>
    have hmarks : l.marks = m.stack.length :: m.marks := (follows_steps hcode h).marks
    exact ⟨{ l with stack := keepBottom m.stack.length l.stack, marks := m.marks },
      by simp only [Compile.popCode, Option.map_some, Option.toList_some, steps, step, hmarks], rfl⟩
  | some (n + 1) =>
    obtain ⟨hfield, hcount⟩ := hbalances
    have hlength := length_stack_steps hcode hfield h
    have hle : n + 1 ≤ l.stack.length := by
      rw [Option.getD_some] at hcount
      omega
    exact ⟨{ l with stack := l.stack.drop (n + 1) },
      by simp only [Compile.popCode, Option.map_some, Option.toList_some, steps, step, if_pos hle], rfl⟩

/-- Printing what the escaper for comments gives writes nothing. -/
theorem steps_print_called (schema : Schema) (t : Tables) (hargc : argc ≤ l.stack.length) :
    ∃ l', (l.called Builtin.commentFunction argc).bind (·.steps schema t [.print]) = .done l' ∧
      l'.sink = l.sink := by
  refine ⟨{ l with stack := .html "" :: l.stack.drop argc }, ?_, rfl⟩
  have hprinted : Value.printed schema (.html "") = .ok "" := rfl
  have hwrite : l.sink.write "".toUTF8 = (l.sink, none) := l.sink.write_empty
  simp only [called, popArgs?, if_pos hargc, Builtin.call_commentFunction, Outcome.bind, steps, step, push,
    print_eq, hprinted, write, hwrite]

/-- A call without enough values on the stack underflows. -/
theorem called_of_lt (hargc : l.stack.length < argc) :
    l.called Builtin.commentFunction argc =
      .failed (.invalidCode "stack underflow") l.sink l.streams := by
  simp only [called, popArgs?, if_neg (Nat.not_le.mpr hargc)]

end Machine

namespace Compile

variable {c : Context} {pos pipePos : Pos} {s s' s₁ : State} {f f' g body : Fragment} {code : List Instr}
  {pop : Option Nat} {wf : Prop} {argc : Nat}

open Builtin

/-- The escaper for comments is only left out behind a call that is declared to return an integer, if
comments are dropped. -/
theorem resolve_commentEscaper {options : CompileOptions} (hdrop : options.dropComments)
    (known : Option ParamType) :
    resolve options false known commentEscaperName =
      if known = some .int then none else some commentEscaperName := by
  have hescaper : isEscaper commentEscaperName = true := by decide +kernel
  have hhtml : commentEscaperName ≠ htmlEscaperName := by decide +kernel
  have hjs : commentEscaperName ≠ jsEscaperName := by decide +kernel
  simp only [resolve, hescaper, if_true, resolveEscaper, Bool.false_eq_true, if_false, hdrop, not_true,
    and_false, hhtml, hjs]
  cases known with
  | none => rfl
  | some ty =>
    cases ty with
    | text kind => cases kind <;> rfl
    | _ => rfl

/-- Whether a call of the escaper for comments has been added to a fragment, or nothing at all if it is
known to get an integer. -/
def AddsComment (c : Context) (argc : Nat) (f : Fragment) (s : State) (f' : Fragment) (s' : State) :
    Prop :=
  if knownOperand s.tables argc f = some .int then f'.instrs = f.instrs ∧ s' = s
  else ∃ g pos pos', f' = (g.mark pos).mark pos' ∧ AppendsCall c argc commentFunction f s g s'

/-- With comments dropped the comment escaper is always called. -/
theorem yields_command_comment {cmd : Command} {chained : Bool} (hs : s.Ready c)
    (hescapers : c.registry.HasEscapers c.schema) (hdrop : c.options.dropComments)
    (hcmd : cmd.bareName? = some commentEscaperName) :
    Yields (command c chained f cmd) s (AddsComment c chained.toNat f s) := by
  intro f' s' hrun
  unfold AddsComment
  obtain ⟨pos, namePos, rfl⟩ := Command.exists_of_bareName? hcmd
  rw [command_bare] at hrun
  obtain ⟨g, s₁, hidentifier, hpure⟩ := bind_eq_ok.mp hrun
  cases hpure
  rw [identifier_eq (by decide +kernel), hs.noPrint, resolve_commentEscaper hdrop] at hidentifier
  by_cases hint : knownOperand s.tables chained.toNat f = some .int
  · rw [if_pos hint] at hidentifier ⊢
    cases hidentifier
    exact ⟨rfl, rfl⟩
  · rw [if_neg hint] at hidentifier ⊢
    have hname : c.registry.get? commentEscaperName = some commentFunction :=
      hescapers _ (commentFunction_mem c.schema)
    exact ⟨g, namePos, pos, rfl, yields_callNamed hname g _ hidentifier⟩

/-- The run of an action that prints, piece by piece. -/
theorem Settles.runs_printing {schema : Schema} {start : State} {body : List Instr}
    (h : Settles schema start s' (body ++ [.print]) pop code) (hbody : Straight body) {env : Env}
    (henv : env.GrownFrom schema s'.tables) (m : Machine) (x : Outcome) : env.Runs code m x ↔ x =
      (((m.within (m.frame.held pop)).steps schema env.tables body).bind
        (·.steps schema env.tables [.print])).bind (·.steps schema env.tables (popCode pop)) := by
  have hprinting : Straight (body ++ [.print]) := hbody.append (straight_singleton rfl)
  rw [h.runs env henv.schema_eq henv.extends_, env.runs_local (isLocal_balanced hprinting pop),
    henv.schema_eq, Machine.steps_append_eq_bind, Machine.steps_append_eq_bind, Machine.steps_holdCode,
    Outcome.bind, Machine.steps_append_eq_bind]

/-- The code of an action that ends with a call of the escaper for comments writes nothing, and fails as
the code in front of the call does. -/
theorem Settles.drops {cond : Prop} {start : State} (hpart : Part c False argc f s)
    (hcall : AppendsCall c argc commentFunction f s g s₁)
    (hsettles : Settles c.schema start s' (g.instrs ++ [.print]) pop code)
    (hgrows : s₁.tables.Extends s'.tables)
    (hvalues : cond → ∀ t (l l' : Machine), l.steps c.schema t f.instrs = .done l' →
      argc ≤ l'.stack.length)
    {env : Env} (henv : env.GrownFrom c.schema s'.tables) : env.Drops cond f.instrs pop code := by
  intro m
  have hg : Part c False 1 g s₁ := hcall.part hpart
  have hstraight : Straight (g.instrs ++ [.print]) := hg.straight.append (straight_singleton rfl)
  let l := m.within (m.frame.held pop)
  have hruns (x : Outcome) : env.Runs code m x ↔ x =
      (((l.steps c.schema env.tables f.instrs).bind (·.called commentFunction argc)).bind
        (·.steps c.schema env.tables [.print])).bind (·.steps c.schema env.tables (popCode pop)) := by
    rw [hsettles.runs_printing hg.straight henv, hcall.steps hpart.ready (hgrows.trans henv.extends_)]
  have hfront (x : Outcome) : env.Runs f.instrs l x ↔ x = l.steps c.schema env.tables f.instrs := by
    rw [env.runs_straight hpart.straight, henv.schema_eq]
  have hsink := Machine.sink_steps_of_resolved c.schema env.tables hpart.resolved l
  refine ⟨_, _, hfront, hruns, ?_⟩
  cases hr : l.steps c.schema env.tables f.instrs with
  | failed e sink streams =>
    rw [hr] at hsink
    exact ⟨hsink, fun _ => rfl, fun _ _ => rfl⟩
  | done l₁ =>
    rw [hr] at hsink
    rw [Outcome.bind]
    by_cases hargc : argc ≤ l₁.stack.length
    · obtain ⟨l₂, hprint, hsink₂⟩ :=
        Machine.steps_print_called c.schema env.tables hargc
      have hsteps : l.steps c.schema env.tables (g.instrs ++ [.print]) = .done l₂ := by
        rw [Machine.steps_append_eq_bind, hcall.steps hpart.ready (hgrows.trans henv.extends_), hr,
          Outcome.bind, hprint]
      obtain ⟨l₃, hpop, hsink₃⟩ := Machine.exists_steps_popCode (u := env.tables) hstraight
        hsettles.balances hsteps
      rw [hprint, Outcome.bind, hpop]
      exact ⟨hsink₃.trans (hsink₂.trans hsink), False.elim, fun _ => False.elim⟩
    · rw [Machine.called_of_lt (Nat.lt_of_not_le hargc)]
      exact ⟨hsink, False.elim, fun hcond => (hargc (hvalues hcond _ _ _ hr)).elim⟩

/-- What becomes of an action that ends with the escaper for comments. -/
theorem ActionSite.drops {t : Tables} {whole : List Instr} {assign : Bool} {earlier : List Command}
    {cmd : Command} (K : ActionSite c pos (.mk pipePos assign [] (earlier ++ [cmd])) t whole)
    (hescapers : c.registry.HasEscapers c.schema) (hdrop : c.options.dropComments)
    (hhooks : NoHooks (Command.allNames earlier)) (hcmd : cmd.bareName? = some commentEscaperName) :
    ∃ front s, commands c false .empty earlier K.before = .ok (front, s) ∧
      if knownOperand s.tables (!earlier.isEmpty).toNat front = some .int then
        ∃ body, commands c false .empty (earlier ++ [cmd]) K.before = .ok (body, s) ∧
          body.instrs = front.instrs
      else ∃ pop, ∀ env : Env, env.GrownFrom c.schema t →
        env.Drops (Command.allFilled earlier) front.instrs pop K.code := by
  obtain ⟨front, s₀, body, s₁, hcommands, hrun, hlast, hprinting⟩ := K.exists_commands
  rw [commands_singleton] at hlast
  obtain ⟨code, hcode, hstays, hresolved⟩ := yields_ready_commands false earlier .empty _ hhooks _ _ hrun
  obtain rfl : front.instrs = code := hcode
  have hpart : Part c False (!earlier.isEmpty).toNat front s₀ :=
    ⟨hstays.ready K.ready, hresolved K.ready, False.elim⟩
  have hcomment := yields_command_comment hpart.ready hescapers hdrop hcmd body s₁ hlast
  refine ⟨front, s₀, hrun, ?_⟩
  unfold AddsComment at hcomment
  by_cases hint : knownOperand s₀.tables (!earlier.isEmpty).toNat front = some .int
  · rw [if_pos hint] at hcomment ⊢
    obtain ⟨hbody, rfl⟩ := hcomment
    exact ⟨body, hcommands, hbody⟩
  · rw [if_neg hint] at hcomment ⊢
    obtain ⟨g, pos₁, pos₂, rfl, hcall⟩ := hcomment
    obtain ⟨code, pop, hcode, hsettles⟩ :=
      (((hcall.part hpart).mark pos₁).mark pos₂).printing_eq_ok hprinting
    obtain rfl : K.code = code := List.append_cancel_left (K.instrs_result.symm.trans hcode)
    refine ⟨pop, fun env henv => ?_⟩
    refine hsettles.drops hpart hcall hsettles.extends_ (fun hfilled u l l' hdone => ?_)
      (henv.mono K.extends_)
    exact le_length_of_commands_eq_ok hdrop K.ready hhooks hfilled hrun hdone

variable {set : TemplateSet} {registry : Registry} {options : CompileOptions} {schema : Schema}
  {p : Program} {name : String} {tree : Tree}

/-- An action that ends with the escaper for comments writes nothing if comments are dropped, unless the
code in front of the escaper ends with a call that is declared to return an integer; then the action is
compiled as if the escaper were not there. On every machine the action has one outcome: it fails with the
error of a command in front of the escaper, if one fails, and otherwise it succeeds, provided that no
command is without operands. -/
theorem comments_are_dropped {assign : Bool} {earlier : List Command} {cmd : Command}
    (hcompile : compile schema registry options set = .ok p)
    (hhooks : ∀ entry ∈ set.toList, NoHooks (Node.allNames entry.2.root.nodes))
    (hkeyed : registry.IsKeyed) (hescapers : registry.HasEscapers schema)
    (hdrop : options.dropComments) (htree : set.get? name = some tree)
    (hoccurs : (Node.action pos (.mk pipePos assign [] (earlier ++ [cmd]))).Occurs tree.root.nodes)
    (hcmd : cmd.bareName? = some commentEscaperName) :
    let pipe := Pipeline.mk pipePos assign [] (earlier ++ [cmd])
    let c : Context := ⟨set, registry, options, schema, name, tree.source⟩
    ∃ u, p.templates[name]? = some u ∧ Nonempty (ActionSite c pos pipe p.tables u.code.toList) ∧
      ∀ K : ActionSite c pos pipe p.tables u.code.toList,
        ∃ front s, commands c false .empty earlier K.before = .ok (front, s) ∧
          if knownOperand s.tables (!earlier.isEmpty).toNat front = some .int then
            ∃ body, commands c false .empty (earlier ++ [cmd]) K.before = .ok (body, s) ∧
              body.instrs = front.instrs
          else ∃ pop, ∀ env : Env, env.GrownFrom schema p.tables →
            env.Drops (Command.allFilled earlier) front.instrs pop K.code := by
  obtain ⟨u, hu, hsites⟩ := exists_actionSite hcompile hhooks hkeyed htree hoccurs
  have hnames : NoHooks (Command.allNames earlier) := noHooks_of_occurs hhooks htree hoccurs
  exact ⟨u, hu, hsites, fun K => K.drops hescapers hdrop hnames hcmd⟩

end Compile

/-! ### Samples -/

namespace Sample

open Compile

/-- `{{... | html_template_commentescaper}}` -/
def commentPipe (cmd : Command) : Pipeline :=
  .mk 0 false [] ([cmd] ++ [.mk 0 [.ident 0 Builtin.commentEscaperName]])

/-- A template that is nothing but a comment. -/
def comment (cmd : Command) : TemplateSet := .ofRoot ⟨"main", ⟨0, [.action 0 (commentPipe cmd)]⟩, none⟩

/-- The options that drop comments. -/
def dropping : CompileOptions := { CompileOptions.standard with dropComments := true }

/-- What the template `main` of a set writes if comments are dropped. -/
def writtenDropping (set : TemplateSet) : Option String :=
  match compile .plain builtins dropping set with
  | .error _ => none
  | .ok p =>
    match p.run 100 "main" .nil .nil (Machine.fresh .unlimited .none) with
    | .done m => String.fromUTF8? m.sink.written
    | _ => none

end Sample

namespace Compile

open Sample

/-- In the sample the dot is dropped, whatever it is. -/
theorem comments_are_dropped_sample :
    ∃ p u, compile .plain builtins dropping (comment (.mk 0 [.dot 0])) = .ok p ∧
      p.templates["main"]? = some u ∧
      ∃ K : ActionSite ⟨comment (.mk 0 [.dot 0]), builtins, dropping, .plain, "main", none⟩ 0
          (commentPipe (.mk 0 [.dot 0])) p.tables u.code.toList,
        ∃ pop, ∀ env : Env, env.GrownFrom .plain p.tables → env.Drops True [.dot] pop K.code := by
  obtain ⟨p, hp⟩ := exists_of_isOk
    (show (compile .plain builtins dropping (comment (.mk 0 [.dot 0]))).isOk by decide +kernel)
  have hhooks : ∀ entry ∈ (comment (.mk 0 [.dot 0])).toList,
      NoHooks (Node.allNames entry.2.root.nodes) := by decide +kernel
  have hkeyed : builtins.IsKeyed := Registry.isKeyed_withBuiltins Registry.all_empty .plain
  have hget : (comment (.mk 0 [.dot 0])).get? "main" =
      some ⟨"main", ⟨0, [.action 0 (commentPipe (.mk 0 [.dot 0]))]⟩, none⟩ := rfl
  obtain ⟨u, hu, ⟨K⟩, hdrops⟩ := comments_are_dropped hp hhooks hkeyed
    (Registry.hasEscapers_withBuiltins .empty .plain) rfl hget (.here []) rfl
  obtain ⟨front, s, hrun, hresult⟩ := hdrops K
  cases hrun
  obtain ⟨pop, henv⟩ := hresult
  refine ⟨p, u, hp, hu, K, pop, fun env hgrown m => ?_⟩
  obtain ⟨r, o, hfront, hcode, hsink, hfails, hfilled⟩ := henv env hgrown m
  exact ⟨r, o, hfront, hcode, hsink, hfails, fun _ => hfilled rfl⟩

/-- A length is written, although it is a comment that is to be dropped. -/
theorem comment_is_written :
    let cmd : Command := .mk 0 [.ident 0 "len", .string 0 "abc"]
    dropping.dropComments ∧ builtins.HasEscapers .plain ∧
      (∀ entry ∈ (comment cmd).toList, NoHooks (Node.allNames entry.2.root.nodes)) ∧
      writtenDropping (comment (.mk 0 [.dot 0])) = some "" ∧
      writtenDropping (comment cmd) = some "3" :=
  ⟨rfl, Registry.hasEscapers_withBuiltins .empty .plain, by decide +kernel, by decide +kernel,
    by decide +kernel⟩

end Compile
end Stencil
