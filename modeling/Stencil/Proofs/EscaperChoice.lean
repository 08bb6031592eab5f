import Stencil.Proofs.Folding
import Stencil.Proofs.Overflow
import Stencil.Proofs.PlainCalls

/-!
# Escapers that are left out

The compiler leaves an escaper out, or puts another one in its place, as the declared type of the
function called right before it allows. What an action writes, and how it fails, is the same as if each
escaper at its end were called, whether or not constants are folded.
-/

namespace Stencil

open Fragment (Balances)

/-! ### Ends of actions -/

/-- Whether a program has a schema, and tables that grow from the given ones. -/
structure Env.GrownFrom (schema : Schema) (t : Tables) (env : Env) : Prop where
  schema_eq : env.schema = schema
  extends_ : t.Extends env.tables

/-- Whether two codes write the same and fail in the same way on every machine and then leave as many
values, in all programs that grow from their tables; and whether they have the same effect if the
pipeline they come from is well formed. -/
structure EndsAlike (schema : Schema) (wf : Prop) (t t' : Tables) (code code' : List Instr) : Prop where
  shown : ∀ env env' : Env, env.GrownFrom schema t → env'.GrownFrom schema t' → ∀ m : Machine,
    ∃ o o', (∀ r, env.Runs code m r ↔ r = o) ∧ (∀ r, env'.Runs code' m r ↔ r = o') ∧
      o.map Machine.hideValues = o'.map Machine.hideValues
  runs : wf → ∀ env env' : Env, env.GrownFrom schema t → env'.GrownFrom schema t' →
    env.Runs code = env'.Runs code'

/-- A program whose tables grow from some tables has grown from those that these have grown from. -/
theorem Env.GrownFrom.mono {schema : Schema} {t u : Tables} {env : Env} (h : env.GrownFrom schema u)
    (hextends : t.Extends u) : env.GrownFrom schema t :=
  ⟨h.schema_eq, hextends.trans h.extends_⟩

/-- Ends that are alike stay so when tables grow. -/
theorem EndsAlike.mono {schema : Schema} {wf : Prop} {t t' u : Tables} {code code' : List Instr}
    (h : EndsAlike schema wf t t' code code') (hextends : t.Extends u) :
    EndsAlike schema wf u t' code code' where
  shown env env' hgrown := h.shown env env' (hgrown.mono hextends)
  runs hwf env env' hgrown := h.runs hwf env env' (hgrown.mono hextends)

/-- Code whose instructions are resolved does what it does in all tables that grow from these. -/
theorem CodeAlike.of_resolved {schema : Schema} {t : Tables} {code : List Instr}
    (hcode : ∀ i ∈ code, i.Resolved t) : CodeAlike schema t t code code where
  left i hi := (hcode i hi).isStraight
  right i hi := (hcode i hi).isStraight
  fields := rfl
  count := rfl
  steps _ _ hu hu' _ m := Machine.steps_of_resolved hcode hu hu' m

namespace Machine

variable {schema : Schema} {t t' : Tables} {pop : Option Nat} {body body' : List Instr}

/-- Values that are hidden do not show within other stacks either. -/
theorem within_hideValues (F : Frame) (o : Outcome) :
    (o.map hideValues).map (·.within F) = o.map (·.within F) := by
  cases o <;> rfl

/-- Marking the depth of the stack does not depend on the tables. -/
theorem steps_holdCode (pop : Option Nat) (m : Machine) :
    m.steps schema t (Fragment.holdCode pop) = .done (m.within (m.frame.held pop)) := by
  unfold Fragment.holdCode Frame.held
  split <;> rfl

/-- Printing shows the same if the values that are printed agree. -/
theorem steps_print_hideValues {l : Machine} {known : Option ParamType}
    (h : (l.steps schema t body).Agrees known (l.steps schema t' body')) :
    (l.steps schema t (body ++ [.print])).map hideValues =
      (l.steps schema t' (body' ++ [.print])).map hideValues := by
  rw [steps_append_eq_bind, steps_append_eq_bind]
  exact printed_of_agrees h

/-- Balanced code that prints shows the same if the values that are printed agree. -/
theorem steps_balanced_hideValues (pop : Option Nat) {known : Option ParamType}
    (h : ∀ l : Machine, (l.steps schema t body).Agrees known (l.steps schema t' body')) (m : Machine) :
    (m.steps schema t (Fragment.holdCode pop ++ (body ++ [.print]) ++ Compile.popCode pop)).map
        hideValues =
      (m.steps schema t' (Fragment.holdCode pop ++ (body' ++ [.print]) ++ Compile.popCode pop)).map
        hideValues := by
  rw [steps_append_eq_bind, steps_append_eq_bind, steps_append_eq_bind _ (Compile.popCode pop),
    steps_append_eq_bind (Fragment.holdCode pop), steps_holdCode, steps_holdCode]
  exact bind_popCode_hideValues pop (steps_print_hideValues (h _))

end Machine

namespace Compile

variable {c : Context} {pos pipePos : Pos} {s s' s₁ s₁' : State} {f f' g body body' : Fragment}
  {code code' : List Instr} {pop pop' : Option Nat} {wf : Prop}

/-- Code does what alike code does once it has been balanced. -/
theorem Settles.of_alike {g body : List Instr} (h : Settles c.schema s₁ s' g pop code)
    (halike : CodeAlike c.schema s₁.tables s.tables g body)
    (hextends : s.tables.Extends s₁.tables) (hs : s.Alike s₁) :
    Settles c.schema s s' body pop code where
  isLocal := h.isLocal
  balances := h.balances.of_count halike.fields halike.count
  extends_ := hextends.trans h.extends_
  alike := hs.trans h.alike
  runs env hschema hgrown := (h.runs env hschema hgrown).trans
    ((StatementsAlike.balanced halike pop).runs env env
      ⟨hschema, hschema, h.extends_.trans hgrown, hextends.trans (h.extends_.trans hgrown), .refl _, rfl⟩)

/-- Codes that agree are balanced in the same way when what they leave has been printed. -/
theorem Stage.balances {R : Outcome → Outcome → Prop} (h : Stage c wf 1 R body s body' s')
    (hleft : Balances pop (body.instrs ++ [.print])) : Balances pop (body'.instrs ++ [.print]) := by
  have hcount := h.count
  refine hleft.of_count (by simp [h.fields]) ?_
  simp only [Fragment.pushed, Fragment.popped, Fragment.total_append] at hcount ⊢
  omega

/-- Codes that agree end alike when what they leave has been printed. -/
theorem Stage.endsAlike {known : Option ParamType}
    (h : Stage c wf 1 (Outcome.Agrees known) body s body' s')
    (hleft : Settles c.schema s s₁ (body.instrs ++ [.print]) pop code)
    (hright : Settles c.schema s' s₁' (body'.instrs ++ [.print]) pop' code') :
    EndsAlike c.schema wf s₁.tables s₁'.tables code code' := by
  obtain rfl : pop = pop' := (h.balances hleft.balances).unique hright.balances
  have hstraight : Straight (body.instrs ++ [.print]) := h.left.straight.append (straight_singleton rfl)
  have hstraight' : Straight (body'.instrs ++ [.print]) :=
    h.right.straight.append (straight_singleton rfl)
  refine ⟨fun env env' hgrown hgrown' m => ?_, fun hwf env env' hgrown hgrown' => ?_⟩
  · have hagree := h.agree env.tables env'.tables (hleft.extends_.trans hgrown.extends_)
      (hright.extends_.trans hgrown'.extends_)
    refine ⟨_, _, fun r => ?_, fun r => ?_, Machine.steps_balanced_hideValues pop hagree m⟩
    · rw [hleft.runs env hgrown.schema_eq hgrown.extends_,
        env.runs_local (isLocal_balanced hstraight pop), hgrown.schema_eq]
    · rw [hright.runs env' hgrown'.schema_eq hgrown'.extends_,
        env'.runs_local (isLocal_balanced hstraight' pop), hgrown'.schema_eq]
  · -- Code that finds its own values can be run on an empty stack, which is then put back as it was.
    funext m r
    have hagree := h.agree env.tables env'.tables (hleft.extends_.trans hgrown.extends_)
      (hright.extends_.trans hgrown'.extends_) m.bare
    have hsame := congrArg (Outcome.map (·.within m.frame)) (Machine.steps_print_hideValues hagree)
    rw [Machine.within_hideValues, Machine.within_hideValues] at hsame
    rw [hleft.runs env hgrown.schema_eq hgrown.extends_,
      hright.runs env' hgrown'.schema_eq hgrown'.extends_,
      Env.runs_balanced hstraight ((h.left.leaves hwf).append leaves_singleton) hleft.balances,
      Env.runs_balanced hstraight' ((h.right.leaves hwf).append leaves_singleton) hright.balances,
      hgrown.schema_eq, hgrown'.schema_eq, hsame]

/-! ### Actions that print -/

/-- The code of an action that prints the value of a body of commands. -/
def printing (c : Context) (pos : Pos) (f : Fragment) (pipePos : Pos) (body : Fragment) :
    M Fragment := do
  let g ← fold c pipePos body
  let s ← get
  let g := if !s.noPrint then (g.mark pipePos).push .print else g.mark pipePos
  set { s with noPrint := false }
  settle c pos f g s.tables

/-- An action without variables prints what its commands leave. -/
theorem action_eq_printing (assign : Bool) (cmds : List Command) :
    action c pos f (.mk pipePos assign [] cmds) =
      (do printing c pos f pipePos (← commands c false .empty cmds)) := by
  simp [action_eq, pipeline, printing, bindAll, Pipeline.decl]

/-- An action whose escapers are called prints what its commands leave. -/
theorem plainAction_eq_printing (assign : Bool) (cmds : List Command) :
    plainAction c pos f (.mk pipePos assign [] cmds) =
      (do printing c pos f pipePos (← plainCommands c false .empty cmds)) := by
  simp [plainAction, plainPipeline, printing, bindAll, Pipeline.decl]

/-- The body of an action is folded and then printed. -/
theorem printing_of_fold (hfold : fold c pipePos body s = .ok (g, s₁)) (hprint : s₁.noPrint = false) :
    printing c pos f pipePos body s =
      settle c pos f ((g.mark pipePos).push .print) s₁.tables s₁ := by
  have hcond : (!s₁.noPrint) = true := by rw [hprint]; rfl
  have hsame : { s₁ with noPrint := false } = s₁ := by rw [← hprint]
  rw [printing, bind_of_eq_ok hfold]
  show settle c pos f (if !s₁.noPrint then _ else _) s₁.tables { s₁ with noPrint := false } = _
  rw [if_pos hcond, hsame]

/-- Folding the body of an action does not change what it does. -/
theorem Part.alike_of_fold (h : Part c wf 1 body s) (hfold : fold c pipePos body s = .ok (g, s₁)) :
    s₁.noPrint = false ∧ CodeAlike c.schema s₁.tables s.tables ((g.mark pipePos).push .print).instrs
      (body.instrs ++ [.print]) ∧ s.tables.Extends s₁.tables ∧ s.Alike s₁ := by
  have hadds : AddsHooked c false .empty s body s := .of_code (.refl c s) rfl fun _ => h.resolved
  have hready := (yields_hooked_fold hadds g s₁ hfold).resolved.stays.ready h.ready
  obtain ⟨hcode, hextends, halike⟩ := Compile.alike_of_fold hfold (.of_resolved h.resolved)
  have hprint : CodeAlike c.schema s₁.tables s.tables [.print] [.print] := .singleton rfl nofun nofun
  rw [Fragment.instrs_push]
  exact ⟨hready.noPrint, hcode.append hprint, hextends, halike⟩

/-- What an action writes is what its balanced code prints. -/
theorem Part.printing_eq_ok (h : Part c wf 1 body s)
    (hrun : printing c pos f pipePos body s = .ok (f', s')) :
    ∃ code pop, f'.instrs = f.instrs ++ code ∧
      Settles c.schema s s' (body.instrs ++ [.print]) pop code := by
  obtain ⟨g, s₁, hfold, -⟩ := bind_eq_ok.mp hrun
  obtain ⟨hprint, hcode, hextends, halike⟩ := h.alike_of_fold hfold
  rw [printing_of_fold hfold hprint] at hrun
  obtain ⟨code, pop, hf', hsettles⟩ := settle_eq_ok hcode.left hrun
  exact ⟨code, pop, hf', hsettles.of_alike hcode hextends halike⟩

/-! ### Full tables -/

/-- What has been compiled for the commands of an action can be printed. -/
theorem Part.onlyOverflows_printing (h : Part c wf 1 body s)
    (hbalances : Balances pop (body.instrs ++ [.print])) :
    OnlyOverflows (printing c pos f pipePos body) s := by
  refine .bind (onlyOverflows_fold body) fun g s₁ hfold e herror => ?_
  obtain ⟨hprint, hcode, -, -⟩ := h.alike_of_fold hfold
  have hrun : printing c pos f pipePos body s = .error e := (bind_of_eq_ok hfold).trans herror
  rw [printing_of_fold hfold hprint] at hrun
  have hfolded := hbalances.of_count hcode.symm.fields hcode.symm.count
  exact onlyOverflows_settle hcode.left hfolded e hrun

/-- A command that is called without a choice fails only because of full tables. -/
theorem onlyOverflows_plainCommand {cmd : Command} {name : String} {function : Function}
    {chained : Bool} (hcmd : cmd.bareName? = some name) (hhook : isHook name = false)
    (hfunction : c.registry.get? name = some function) :
    OnlyOverflows (plainCommand c chained f cmd) s := by
  obtain ⟨pos, namePos, rfl⟩ := Command.exists_of_bareName? hcmd
  refine .bind ?_ fun _ _ _ => onlyOverflows_pure _
  rw [plainIdentifier_eq hhook, callNamed, hfunction]
  exact .bind (onlyOverflows_addEntry _ _) fun _ _ _ => onlyOverflows_pure _

/-- Calls of the standard escapers can be compiled. -/
theorem onlyOverflows_escapers {last : List Command} {chained : Bool}
    (hescapers : c.registry.HasEscapers c.schema)
    (hlast : ∀ cmd ∈ last, cmd.bareName? = some Builtin.htmlEscaperName ∨
      cmd.bareName? = some Builtin.jsEscaperName) :
    OnlyOverflows (plainCommands c chained f last) s := by
  induction last generalizing chained f s with
  | nil => exact onlyOverflows_pure f
  | cons cmd rest ih =>
    rw [List.forall_mem_cons] at hlast
    refine .bind ?_ fun g s₁ _ => ih hlast.2
    rcases hlast.1 with hhtml | hjs
    · exact onlyOverflows_plainCommand hhtml (by decide +kernel)
        (hescapers _ (Builtin.htmlFunction_mem c.schema))
    · exact onlyOverflows_plainCommand hjs (by decide +kernel)
        (hescapers _ (Builtin.jsFunction_mem c.schema))

/-- Each command at the end of an action is a bare name of an escaper. -/
theorem AreEscapers.bareName? {last : List Command} (h : AreEscapers last) :
    ∀ cmd ∈ last, cmd.bareName? = some Builtin.htmlEscaperName ∨
      cmd.bareName? = some Builtin.jsEscaperName := by
  intro cmd hcmd
  have hmem : cmd.bareName? ∈ last.map Command.bareName? := List.mem_map_of_mem hcmd
  unfold AreEscapers at h
  simp only [List.mem_cons, List.not_mem_nil, or_false] at h
  rcases h with h | h | h <;> rw [h] at hmem <;>
    simp only [List.mem_cons, List.not_mem_nil, or_false] at hmem
  · exact .inl hmem
  · exact .inr hmem
  · exact hmem.symm

/-! ### Actions of a program -/

/-- The commands of an action are compiled in sequence, and then what they leave is printed. -/
theorem ActionSite.exists_commands {t : Tables} {whole : List Instr} {assign : Bool}
    {earlier last : List Command}
    (K : ActionSite c pos (.mk pipePos assign [] (earlier ++ last)) t whole) :
    ∃ g s₀ body s₁, commands c false .empty (earlier ++ last) K.before = .ok (body, s₁) ∧
      commands c false .empty earlier K.before = .ok (g, s₀) ∧
      commands c (!earlier.isEmpty) g last s₀ = .ok (body, s₁) ∧
      printing c pos K.front pipePos body s₁ = .ok (K.result, K.after) := by
  have hcompiled := K.compiled
  rw [action_eq_printing] at hcompiled
  obtain ⟨body, s₁, hcommands, hprinting⟩ := bind_eq_ok.mp hcompiled
  obtain ⟨g, s₀, hrun, hlast⟩ := commands_append_eq_ok hcommands
  rw [Bool.false_or] at hlast
  exact ⟨g, s₀, body, s₁, hcommands, hrun, hlast, hprinting⟩

/-- An action ends alike when the escapers at its end are called, unless a table is too small for
them. -/
theorem ActionSite.endsAlike {t : Tables} {whole : List Instr} {assign : Bool}
    {earlier last : List Command}
    (K : ActionSite c pos (.mk pipePos assign [] (earlier ++ last)) t whole)
    (hescapers : c.registry.HasEscapers c.schema) (hkeeps : c.registry.KeepsTypes)
    (hhooks : NoHooks (Command.allNames earlier))
    (hearlier : ∀ name ∈ Command.allNames earlier, isEscaper name = false) (hlast : AreEscapers last) :
    match plainAction c pos K.front (.mk pipePos assign [] (earlier ++ last)) K.before with
    | .ok (f, s) => ∃ code, f.instrs = K.front.instrs ++ code ∧
        EndsAlike c.schema ((Pipeline.mk pipePos assign [] (earlier ++ last)).wellFormed 1) t s.tables
          K.code code
    | .error e => ∃ table, e.kind = .tableOverflow table := by
  obtain ⟨g, s₀, body, s₁, -, hrun, hlastRun, hprinting⟩ := K.exists_commands
  have hplain : plainAction c pos K.front (.mk pipePos assign [] (earlier ++ last)) K.before =
      (do printing c pos K.front pipePos (← plainCommands c (!earlier.isEmpty) g last)) s₀ := by
    rw [plainAction_eq_printing, plainCommands_append, plainCommands_eq_commands hhooks hearlier,
      bind_assoc, bind_of_eq_ok hrun, Bool.false_or]
  have hstart : Stage c ((Pipeline.mk pipePos assign [] (earlier ++ last)).wellFormed 1) _ _ g s₀ g s₀ :=
    .commands K.ready hkeeps hhooks hrun
  rw [hplain]
  cases hplainRun : plainCommands c (!earlier.isEmpty) g last s₀ with
  | error e =>
    rw [bind_of_eq_error hplainRun]
    exact onlyOverflows_escapers hescapers hlast.bareName? e hplainRun
  | ok r =>
    obtain ⟨body', s₁'⟩ := r
    rw [bind_of_eq_ok hplainRun]
    obtain ⟨known, hstage⟩ := hstart.escapers hescapers hlast hlastRun hplainRun
    obtain ⟨code, pop, hcode, hsettles⟩ := hstage.left.printing_eq_ok hprinting
    obtain rfl : K.code = code := List.append_cancel_left (K.instrs_result.symm.trans hcode)
    cases hprinted : printing c pos K.front pipePos body' s₁' with
    | error e =>
      exact hstage.right.onlyOverflows_printing (hstage.balances hsettles.balances) e hprinted
    | ok r =>
      obtain ⟨f, s⟩ := r
      obtain ⟨code', pop', hcode', hsettles'⟩ := hstage.right.printing_eq_ok hprinted
      exact ⟨code', hcode', (hstage.endsAlike hsettles hsettles').mono K.extends_⟩

variable {set : TemplateSet} {registry : Registry} {options : CompileOptions} {schema : Schema}
  {p : Program} {name : String} {tree : Tree}

/-- Leaving out the escapers at the end of an action, or putting others in their place, does not show.
If the action is compiled with each of them called instead, then its code writes the same, and fails with
the same error after the same output, on every machine; and it has the same effect altogether if the
pipeline is well formed. Only a full table can keep it from being compiled like that. -/
theorem escaper_choice_unobservable {assign : Bool} {earlier last : List Command}
    (hcompile : compile schema registry options set = .ok p)
    (hhooks : ∀ entry ∈ set.toList, NoHooks (Node.allNames entry.2.root.nodes))
    (hkeyed : registry.IsKeyed) (hescapers : registry.HasEscapers schema)
    (hkeeps : registry.KeepsTypes) (htree : set.get? name = some tree)
    (hoccurs : (Node.action pos (.mk pipePos assign [] (earlier ++ last))).Occurs tree.root.nodes)
    (hearlier : ∀ name ∈ Command.allNames earlier, isEscaper name = false) (hlast : AreEscapers last) :
    let pipe := Pipeline.mk pipePos assign [] (earlier ++ last)
    let c : Context := ⟨set, registry, options, schema, name, tree.source⟩
    ∃ u, p.templates[name]? = some u ∧ Nonempty (ActionSite c pos pipe p.tables u.code.toList) ∧
      ∀ K : ActionSite c pos pipe p.tables u.code.toList,
        match plainAction c pos K.front pipe K.before with
        | .ok (f, s) => ∃ code, f.instrs = K.front.instrs ++ code ∧
            EndsAlike schema (pipe.wellFormed 1) p.tables s.tables K.code code
        | .error e => ∃ table, e.kind = .tableOverflow table := by
  obtain ⟨u, hu, hsites⟩ := exists_actionSite hcompile hhooks hkeyed htree hoccurs
  have hnames : NoHooks (Command.allNames earlier) := noHooks_of_occurs hhooks htree hoccurs
  exact ⟨u, hu, hsites, fun K => K.endsAlike hescapers hkeeps hnames hearlier hlast⟩

end Compile

/-! ### A sample -/

namespace Sample

open Builtin

/-- `len .`, whose result is an integer. -/
def lengthOfDot : Command := .mk 0 [.ident 0 "len", .dot 0]

/-- `{{len . | html_template_jsvalescaper | html_template_htmlescaper}}` -/
def escapedPipe : Pipeline :=
  .mk 0 false [] ([lengthOfDot] ++ [.mk 0 [.ident 0 jsEscaperName], .mk 0 [.ident 0 htmlEscaperName]])

/-- A template that writes a length in a script in markup. -/
def escaped : TemplateSet := .ofRoot ⟨"main", ⟨0, [.action 0 escapedPipe]⟩, none⟩

/-- The instructions of an action of `main` that has been compiled on its own. -/
def instrsOf (x : Compile.M Fragment) : Option (List Instr) :=
  (x ⟨.initial, false, []⟩).toOption.map fun r => r.1.instrs

end Sample

namespace Compile

open Sample

/-- In the sample both escapers are left out, and it does not show. -/
theorem escaper_choice_unobservable_sample :
    let c : Context := ⟨escaped, builtins, .standard, .plain, "main", none⟩
    instrsOf (action c 0 .empty escapedPipe) = some [.dot, .func 1 0, .print, .pop 1] ∧
      instrsOf (plainAction c 0 .empty escapedPipe) =
        some [.dot, .func 1 0, .func 1 1, .func 1 2, .print, .pop 1] ∧
      ∃ p u, compile .plain builtins .standard escaped = .ok p ∧ p.templates["main"]? = some u ∧
        Nonempty (ActionSite c 0 escapedPipe p.tables u.code.toList) ∧
          ∀ K : ActionSite c 0 escapedPipe p.tables u.code.toList,
            match plainAction c 0 K.front escapedPipe K.before with
            | .ok (f, s) => ∃ code, f.instrs = K.front.instrs ++ code ∧
                EndsAlike .plain (escapedPipe.wellFormed 1) p.tables s.tables K.code code
            | .error e => ∃ table, e.kind = .tableOverflow table := by
  obtain ⟨p, hp⟩ := exists_of_isOk
    (show (compile .plain builtins .standard escaped).isOk by decide +kernel)
  have hhooks : ∀ entry ∈ escaped.toList, NoHooks (Node.allNames entry.2.root.nodes) := by
    decide +kernel
  have hkeyed : builtins.IsKeyed := Registry.isKeyed_withBuiltins Registry.all_empty .plain
  have hkeeps : builtins.KeepsTypes := Registry.keepsTypes_withBuiltins Registry.all_empty .plain
  have hlast : AreEscapers [.mk 0 [.ident 0 Builtin.jsEscaperName],
      .mk 0 [.ident 0 Builtin.htmlEscaperName]] :=
    List.mem_cons_of_mem _ (List.mem_cons_of_mem _ List.mem_cons_self)
  have hget : escaped.get? "main" = some ⟨"main", ⟨0, [.action 0 escapedPipe]⟩, none⟩ := rfl
  have hearlier : ∀ name ∈ Command.allNames [lengthOfDot], isEscaper name = false := by decide +kernel
  obtain ⟨u, hu, hends⟩ := escaper_choice_unobservable hp hhooks hkeyed
    (Registry.hasEscapers_withBuiltins .empty .plain) hkeeps hget (.here []) hearlier hlast
  exact ⟨by decide +kernel, by decide +kernel, p, u, hp, hu, hends⟩

end Compile
end Stencil
