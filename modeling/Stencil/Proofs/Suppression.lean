import Stencil.Proofs.Acceptance
import Stencil.Proofs.DroppedComments

/-!
# Suppressed printing

Which actions print. An action that declares no variable prints the value of its pipeline, unless there
is an asset hook in it or one is pending in front of it. A hook in an action is gone behind it, but one in
the condition of a branch or in the pipeline of a template call stays pending until the next action has
been compiled, wherever that is, and then this action writes nothing. All others print, and they call
what they would call in a set without asset hooks: which escapers are called is told from the pipeline
alone.
-/

namespace Stencil

/-- Whether code prints what the code of a pipeline leaves, which writes nothing itself. The code has one
outcome on every machine. It fails if the pipeline does, and it succeeds exactly if the pipeline leaves a
value with a text that the sink takes. The pipeline is run on top of the same values, with their depth
marked if a `POP` goes back to it. -/
def Env.Prints (env : Env) (body : List Instr) (pop : Option Nat) (code : List Instr) : Prop :=
  ∀ m : Machine, ∃ r o, (∀ x, env.Runs body (m.within (m.frame.held pop)) x ↔ x = r) ∧
    (∀ x, env.Runs code m x ↔ x = o) ∧ r.sink = m.sink ∧ (r.Fails → o = r) ∧
    (¬o.Fails ↔ ∃ l v str, r = .done l ∧ l.stack.head? = some v ∧ v.printed env.schema = .ok str ∧
      m.sink.write str.toUTF8 = (o.sink, none))

/-- Whether code has one outcome on every machine and writes nothing. -/
def Env.IsSilent (env : Env) (code : List Instr) : Prop :=
  ∀ m : Machine, ∃ o, (∀ x, env.Runs code m x ↔ x = o) ∧ o.sink = m.sink

namespace Machine

variable {schema : Schema} {t : Tables} {l l' : Machine} {v : Value} {str : String} {sink : Sink}

/-- The value on top of the stack is printed if it has a text that the sink takes, and stays there. -/
theorem steps_print (htop : l.stack.head? = some v) (hprinted : v.printed schema = .ok str)
    (hwrite : l.sink.write str.toUTF8 = (sink, none)) :
    l.steps schema t [.print] = .done { l with sink := sink } := by
  obtain ⟨stack, hstack⟩ : ∃ stack, l.stack = v :: stack := List.head?_eq_some_iff.mp htop
  simp only [steps, step, hstack, print_eq, hprinted, write, hwrite]

/-- Printing succeeds in no other way. -/
theorem exists_of_steps_print (h : l.steps schema t [.print] = .done l') : ∃ v str,
    l.stack.head? = some v ∧ v.printed schema = .ok str ∧
      l.sink.write str.toUTF8 = (l'.sink, none) := by
  simp only [steps, step] at h
  cases hstack : l.stack with
  | nil =>
    rw [hstack] at h
    cases h
  | cons v stack =>
    rw [hstack] at h
    cases hprinted : v.printed schema with
    | error e =>
      simp only [print_eq, hprinted] at h
      cases h
    | ok str =>
      simp only [print_eq, hprinted, write] at h
      cases hwrite : l.sink.write str.toUTF8 with
      | mk sink failure =>
        rw [hwrite] at h
        cases failure with
        | some failure => cases h
        | none =>
          cases h
          exact ⟨v, str, rfl, hprinted, hwrite⟩

/-- What is printed is what has been written when the values have been removed. -/
theorem succeeds_printing_iff {rest : List Instr} (hrest : ∀ l', l.steps schema t [.print] = .done l' →
      ∃ l'', l'.steps schema t rest = .done l'' ∧ l''.sink = l'.sink) {o : Outcome}
    (ho : o = (l.steps schema t [.print]).bind (·.steps schema t rest)) :
    ¬o.Fails ↔ ∃ v str, l.stack.head? = some v ∧ v.printed schema = .ok str ∧
      l.sink.write str.toUTF8 = (o.sink, none) := by
  subst ho
  constructor
  · intro hsucceeds
    cases hprint : l.steps schema t [.print] with
    | failed e sink streams =>
      rw [hprint] at hsucceeds
      exact (hsucceeds trivial).elim
    | done l' =>
      obtain ⟨l'', hdone, hsame⟩ := hrest l' hprint
      obtain ⟨v, str, htop, hprinted, hwrite⟩ := exists_of_steps_print hprint
      refine ⟨v, str, htop, hprinted, ?_⟩
      rw [Outcome.bind, hdone, hwrite, ← hsame]
      rfl
  · rintro ⟨v, str, htop, hprinted, hwrite⟩
    have hprint := steps_print (t := t) htop hprinted hwrite
    obtain ⟨l'', hdone, -⟩ := hrest _ hprint
    rw [hprint, Outcome.bind, hdone]
    exact id

end Machine

/-- The function that an instruction calls, and the number of its arguments. -/
def Compile.call? (t : Tables) : Instr → Option (Nat × Function)
  | .func argc index => (t.funcs[index]?).map (argc, ·)
  | _ => none

/-- The calls in code. -/
def Compile.calls (t : Tables) (code : List Instr) : List (Nat × Function) := code.filterMap (call? t)

/-- The call that a symbol stands for. -/
def Symbol.call? : Symbol → Option (Nat × Function)
  | call argc f => some (argc, f)
  | _ => none

namespace Compile

variable {c : Context} {pos : Pos} {s s' s₁ : State} {f f' g : Fragment} {t u : Tables}
  {code : List Instr} {syms : List Symbol} {pipe : Pipeline} {pop : Option Nat}

/-! ### Printing -/

/-- Code whose balance has been settled prints what the code in front of the `PRINT` leaves. -/
theorem Settles.prints {body : List Instr}
    (hsettles : Settles c.schema s s' (body ++ [.print]) pop code) (hstraight : Straight body)
    (hwrites : ∀ i ∈ body, i.writes = false) {env : Env} (henv : env.GrownFrom c.schema s'.tables) :
    env.Prints body pop code := by
  intro m
  have hprinting : Straight (body ++ [.print]) := hstraight.append (straight_singleton rfl)
  let l := m.within (m.frame.held pop)
  have hbody (x : Outcome) : env.Runs body l x ↔ x = l.steps c.schema env.tables body := by
    rw [env.runs_straight hstraight, henv.schema_eq]
  have hsink : (l.steps c.schema env.tables body).sink = m.sink :=
    Machine.sink_steps_of_writes c.schema env.tables hwrites l
  refine ⟨_, _, hbody, hsettles.runs_printing hstraight henv m, hsink, fun hfails => ?_, ?_⟩
  · rw [Outcome.bind_of_fails hfails, Outcome.bind_of_fails hfails]
  · rw [henv.schema_eq]
    cases hr : l.steps c.schema env.tables body with
    | failed e sink streams =>
      refine ⟨fun h => (h trivial).elim, fun h => ?_⟩
      obtain ⟨l₁, v, str, hdone, -⟩ := h
      cases hdone
    | done l₁ =>
      rw [hr] at hsink
      have hsink : l₁.sink = m.sink := hsink
      have hpop (l₂ : Machine) (hprint : l₁.steps c.schema env.tables [.print] = .done l₂) :
          ∃ l₃, l₂.steps c.schema env.tables (popCode pop) = .done l₃ ∧ l₃.sink = l₂.sink := by
        have hsteps : (m.within (m.frame.held pop)).steps c.schema env.tables (body ++ [.print]) =
            .done l₂ := by rw [Machine.steps_append_eq_bind, hr, Outcome.bind, hprint]
        exact Machine.exists_steps_popCode hprinting hsettles.balances hsteps
      rw [Outcome.bind, Machine.succeeds_printing_iff hpop rfl, hsink]
      refine ⟨fun h => ⟨l₁, ?_⟩, fun h => ?_⟩
      · obtain ⟨v, str, htop, hprinted, hwrite⟩ := h
        exact ⟨v, str, rfl, htop, hprinted, hwrite⟩
      · obtain ⟨l₂, v, str, hl₂, htop, hprinted, hwrite⟩ := h
        cases hl₂
        exact ⟨v, str, htop, hprinted, hwrite⟩

/-- What an action is compiled to where an asset hook is pending in front of it or not. -/
theorem HookSite.settles {pending : Bool} {whole : List Instr} (K : HookSite c pending pos pipe t whole)
    (hhooks : NoHooks pipe.names) (hdecl : pipe.decl = []) :
    ∃ g s pop, pipeline c true pipe K.before = .ok (g, s) ∧
      (∀ i ∈ g.instrs, i.Resolved s.tables) ∧
      Settles c.schema { s with noPrint := false } K.after
        (g.instrs ++ if pending then [] else [.print]) pop K.code := by
  obtain ⟨g, s₁, s₂, hpipe, rfl, hsettle⟩ := action_eq_ok K.compiled
  obtain ⟨code, hcode, hpasses, hentries⟩ := yields_hooked_pipeline true pipe K.before g s₁ hpipe
  obtain rfl : g.instrs = code := hcode
  have hprint : s₁.noPrint = pending := by
    rw [hpasses.noPrint, hhooks.anyHook_eq_false, Bool.or_false, K.noPrint]
  have hresolved : ∀ i ∈ g.instrs, i.Resolved s₁.tables := hentries hhooks.anyHook_eq_false K.linked
  have hstraight : Straight g.instrs := fun i hi => (hresolved i hi).isStraight
  refine ⟨g, s₁, ?_⟩
  obtain ⟨code, pop, hcode, hsettles⟩ := settle_eq_ok (straight_printing hstraight _) hsettle
  obtain rfl : K.code = code := List.append_cancel_left (K.instrs_result.symm.trans hcode)
  refine ⟨pop, hpipe, hresolved, ?_⟩
  rw [hdecl, hprint] at hsettles
  cases pending with
  | true =>
    rw [if_pos rfl, List.append_nil]
    exact hsettles
  | false =>
    rw [if_neg Bool.false_ne_true, ← Fragment.instrs_push]
    exact hsettles

/-- At a site with a pending hook the action writes nothing. -/
theorem HookSite.silent {whole : List Instr} (K : HookSite c true pos pipe t whole)
    (hhooks : NoHooks pipe.names) (hdecl : pipe.decl = []) {env : Env}
    (henv : env.GrownFrom c.schema t) : env.IsSilent K.code := by
  obtain ⟨g, s₁, pop, -, hresolved, hsettles⟩ := K.settles hhooks hdecl
  rw [if_pos rfl, List.append_nil] at hsettles
  have hstraight : Straight g.instrs := fun i hi => (hresolved i hi).isStraight
  have hgrown := henv.mono K.extends_
  intro m
  refine ⟨m.steps c.schema env.tables (Fragment.holdCode pop ++ g.instrs ++ popCode pop), fun x => ?_, ?_⟩
  · rw [hsettles.runs env hgrown.schema_eq hgrown.extends_,
      env.runs_local (isLocal_balanced hstraight pop), hgrown.schema_eq]
  · refine Machine.sink_steps_of_writes c.schema env.tables ?_ m
    simp only [List.forall_mem_append]
    refine ⟨⟨?_, fun i hi => (hresolved i hi).writes⟩, ?_⟩
    · unfold Fragment.holdCode
      split <;> simp [Instr.writes]
    · cases pop <;> simp [popCode, Instr.writes]

/-- At a site without a pending hook the action prints what its pipeline leaves. -/
theorem HookSite.prints {whole : List Instr} (K : HookSite c false pos pipe t whole)
    (hhooks : NoHooks pipe.names) (hdecl : pipe.decl = []) :
    ∃ g s pop, pipeline c true pipe K.before = .ok (g, s) ∧
      ∀ env : Env, env.GrownFrom c.schema t → env.Prints g.instrs pop K.code := by
  obtain ⟨g, s₁, pop, hpipe, hresolved, hsettles⟩ := K.settles hhooks hdecl
  refine ⟨g, s₁, pop, hpipe, fun env henv => ?_⟩
  exact Settles.prints hsettles (fun i hi => (hresolved i hi).isStraight)
    (fun i hi => (hresolved i hi).writes) (henv.mono K.extends_)

/-! ### Calls -/

/-- An instruction calls what its symbol says. -/
theorem call?_eq {i : Instr} {sym : Symbol} (h : symbol? t i = some sym) : call? t i = sym.call? := by
  cases i with
  | val index =>
    obtain ⟨v, -, rfl⟩ := Option.map_eq_some_iff.mp h
    rfl
  | string index =>
    obtain ⟨str, -, rfl⟩ := Option.map_eq_some_iff.mp h
    rfl
  | func argc index =>
    obtain ⟨f, hf, rfl⟩ := Option.map_eq_some_iff.mp h
    simp only [call?, hf, Option.map_some, Symbol.call?]
  | _ =>
    cases h
    rfl

/-- Code calls what its symbols say. -/
theorem Denotes.calls_eq (h : Denotes t code syms) : calls t code = syms.filterMap Symbol.call? := by
  induction code generalizing syms with
  | nil =>
    cases syms with
    | nil => rfl
    | cons sym syms => cases h
  | cons i code ih =>
    cases syms with
    | nil => cases h
    | cons sym syms =>
      obtain ⟨hi, hcode⟩ := denotes_cons.mp h
      have hrest : code.filterMap (call? t) = syms.filterMap Symbol.call? := ih hcode
      rw [calls, List.filterMap_cons, List.filterMap_cons, call?_eq hi, hrest]

/-- The code of an action calls what the code of its pipeline calls. -/
theorem calls_of_settle (hstraight : Straight g.instrs) (h : settle c pos f g s.tables s = .ok (f', s'))
    (hcode : f'.instrs = f.instrs ++ code) : calls t code = calls t g.instrs := by
  unfold settle at h
  cases hprinted : printedConstant? c s.tables g.code with
  | some str =>
    rw [hprinted] at h
    obtain ⟨index, v, hinstrs, -, -⟩ := printedConstant?_eq_some hprinted
    rw [hinstrs]
    simp only at h
    split at h
    · cases h
      obtain rfl : code = [] := List.self_eq_append_right.mp hcode
      rfl
    · obtain ⟨index', s₁, -, hpure⟩ := bind_eq_ok.mp h
      cases hpure
      obtain rfl : [.wb index'] = code :=
        List.append_cancel_left ((Fragment.instrs_push f _).symm.trans hcode)
      rfl
  | none =>
    rw [hprinted] at h
    obtain ⟨b, s₂, hbalanced, hpure⟩ := bind_eq_ok.mp h
    cases hpure
    obtain ⟨-, held, pop, -, hheld, hb, -⟩ := balanced_eq_ok hstraight hbalanced
    obtain rfl : b.instrs = code := List.append_cancel_left ((Fragment.instrs_append f b).symm.trans hcode)
    have hhold : calls t (Fragment.holdCode pop) = [] := by
      unfold Fragment.holdCode
      split <;> rfl
    have hpop : calls t (popCode pop) = [] := by cases pop <;> rfl
    unfold calls at hhold hpop ⊢
    rw [hb, hheld, List.filterMap_append, List.filterMap_append, hhold, hpop, List.nil_append,
      List.append_nil]

/-- Where no asset hook is pending the calls of an action are told from its pipeline. -/
theorem ActionSite.calls_eq {whole : List Instr} (K : ActionSite c pos pipe t whole)
    (hhooks : NoHooks pipe.names) : calls t K.code = (pipe.symbols c).filterMap Symbol.call? := by
  obtain ⟨g, s₁, s₂, hpipe, rfl, hsettle⟩ := action_eq_ok K.compiled
  have hdenotes := ((decides_pipeline pipe K.before hhooks K.ready).of_ok hpipe).2.denotes
  have hstraight : Straight g.instrs := (yields_emitsBindings pipe g s₁ hpipe).1.straight
  have hprinting := straight_printing hstraight (pipe.decl.isEmpty && !s₁.noPrint)
  obtain ⟨code, pop, -, hsettles⟩ := settle_eq_ok hprinting hsettle
  have hextends : s₁.tables.Extends t := hsettles.extends_.trans K.extends_
  rw [calls_of_settle hprinting hsettle K.instrs_result, ← (hdenotes.mono hextends).calls_eq]
  split
  · unfold calls
    rw [Fragment.instrs_push, List.filterMap_append]
    exact List.append_nil _
  · rfl

/-- Whether code calls, in the same order, what an action with a pipeline calls in each set without asset
hooks that can be compiled. -/
def CallsWithoutHooks (registry : Registry) (options : CompileOptions) (schema : Schema) (pipe : Pipeline)
    (t : Tables) (code : List Instr) : Prop :=
  ∀ (set : TemplateSet) (p : Program) (name : String) (tree : Tree) (pos : Pos),
    compile schema registry options set = .ok p →
    (∀ entry ∈ set.toList, NoHooks (Node.allNames entry.2.root.nodes)) → set.get? name = some tree →
    (Node.action pos pipe).Occurs tree.root.nodes → ∃ u, p.templates[name]? = some u ∧
      ∀ K : ActionSite ⟨set, registry, options, schema, name, tree.source⟩ pos pipe p.tables u.code.toList,
        calls p.tables K.code = calls t code

variable {set : TemplateSet} {registry : Registry} {options : CompileOptions} {schema : Schema}
  {p : Program} {name : String} {tree : Tree} {pending : Bool}

/-- An action that has no asset hook in it and declares no variable prints the value of its pipeline each
time it is run, unless a hook is pending in front of it; otherwise it writes nothing. If it prints, its calls,
those of escapers too, are the ones that it has in a set without asset hooks. -/
theorem actions_print_unless_hook_pending (hcompile : compile schema registry options set = .ok p)
    (hkeyed : registry.IsKeyed) (htree : set.get? name = some tree)
    (hoccurs : (Node.action pos pipe).OccursWith pending false tree.root.nodes)
    (hhooks : NoHooks pipe.names) (hdecl : pipe.decl = []) :
    let c : Context := ⟨set, registry, options, schema, name, tree.source⟩
    ∃ u, p.templates[name]? = some u ∧ Nonempty (HookSite c pending pos pipe p.tables u.code.toList) ∧
      ∀ K : HookSite c pending pos pipe p.tables u.code.toList,
        if pending then ∀ env : Env, env.GrownFrom schema p.tables → env.IsSilent K.code
        else
          (∃ g s pop, pipeline c true pipe K.before = .ok (g, s) ∧
            ∀ env : Env, env.GrownFrom schema p.tables → env.Prints g.instrs pop K.code) ∧
          CallsWithoutHooks registry options schema pipe p.tables K.code := by
  obtain ⟨u, hu, hsites⟩ := exists_hookSite hcompile hkeyed htree hoccurs
  refine ⟨u, hu, hsites, fun K => ?_⟩
  cases pending with
  | true => exact fun env henv => K.silent hhooks hdecl henv
  | false =>
    refine ⟨K.prints hhooks hdecl, fun set' p' name' tree' pos' hcompile' hhooks' htree' hoccurs' => ?_⟩
    obtain ⟨u', hu', -⟩ := exists_actionSite hcompile' hhooks' hkeyed htree' hoccurs'
    refine ⟨u', hu', fun K' => ?_⟩
    have hcalls : calls p.tables K.code = _ := K.actionSite.calls_eq hhooks
    rw [K'.calls_eq hhooks, hcalls]
    refine congrArg (List.filterMap Symbol.call?) (Pipeline.symbols_congr ?_ ?_ pipe) <;> rfl

end Compile

/-! ### Samples -/

namespace Sample

open Compile

/-- `"..."` -/
def constantPipe (text : String) : Pipeline := .mk 0 false [] [.mk 0 [.string 0 text]]

/-- `true | render_top_assets` -/
def hookedPipe : Pipeline := .mk 0 false [] [.mk 0 [.bool 0 true], .mk 0 [.ident 0 topAssetsName]]

/-- `a{{"b"}}{{"c"}}` -/
def letters : List Node := [.text 0 "a", .action 1 (constantPipe "b"), .action 2 (constantPipe "c")]

/-- `{{if true | render_top_assets}}a{{"b"}}{{"c"}}{{end}}`, where there are no assets. -/
def hooked : TemplateSet :=
  .ofRoot ⟨"main", ⟨0, [.branch .ifThen 0 hookedPipe ⟨0, letters⟩ none]⟩, none⟩

/-- `{{true | render_top_assets}}a{{"b"}}{{"c"}}` -/
def hookedAction : TemplateSet := .ofRoot ⟨"main", ⟨0, .action 0 hookedPipe :: letters⟩, none⟩

/-- A node inside the body of the sample is one of the sample with no hook pending in front of it. -/
theorem occursWith_letters {pending : Bool} {n : Node} (h : n.OccursWith pending true letters) :
    n.OccursWith pending false [.branch .ifThen 0 hookedPipe ⟨0, letters⟩ none] := by
  refine .inBody _ _ _ _ _ _ ?_
  have hpending : (false || anyHook hookedPipe.names) = true := by decide +kernel
  rwa [hpending]

end Sample

namespace Compile

open Sample

/-- In the sample the hook in the condition is pending in front of the first action in the body, which
writes nothing, but not in front of the second one, which prints. -/
theorem actions_print_unless_hook_pending_sample :
    let c : Context := ⟨hooked, builtins, .standard, .plain, "main", none⟩
    ∃ p u, compile .plain builtins .standard hooked = .ok p ∧ p.templates["main"]? = some u ∧
      (∃ K : HookSite c true 1 (constantPipe "b") p.tables u.code.toList,
        ∀ env : Env, env.GrownFrom .plain p.tables → env.IsSilent K.code) ∧
      ∃ K : HookSite c false 2 (constantPipe "c") p.tables u.code.toList,
        (∃ g s pop, pipeline c true (constantPipe "c") K.before = .ok (g, s) ∧
          ∀ env : Env, env.GrownFrom .plain p.tables → env.Prints g.instrs pop K.code) ∧
        CallsWithoutHooks builtins .standard .plain (constantPipe "c") p.tables K.code := by
  obtain ⟨p, hp⟩ := exists_of_isOk
    (show (compile .plain builtins .standard hooked).isOk by decide +kernel)
  have hkeyed : builtins.IsKeyed := Registry.isKeyed_withBuiltins Registry.all_empty .plain
  have hget : hooked.get? "main" =
      some ⟨"main", ⟨0, [.branch .ifThen 0 hookedPipe ⟨0, letters⟩ none]⟩, none⟩ := rfl
  have hhooks (text : String) : NoHooks (constantPipe text).names := fun _ h => nomatch h
  obtain ⟨u, hu, ⟨K⟩, hsilent⟩ := actions_print_unless_hook_pending hp hkeyed hget
    (occursWith_letters (.behind _ (.here _))) (hhooks "b") rfl
  obtain ⟨u', hu', ⟨K'⟩, hprints⟩ := actions_print_unless_hook_pending hp hkeyed hget
    (occursWith_letters (.behind _ (.behind _ (.here [])))) (hhooks "c") rfl
  obtain rfl : u = u' := Option.some.inj (hu.symm.trans hu')
  exact ⟨p, u, hp, hu, ⟨K, hsilent K⟩, K', hprints K'⟩

/-- An action is not printed although there is no asset hook in it, as there is one in the condition in
front of it. A hook in an action has no such effect. -/
theorem hook_suppresses_next_action :
    NoHooks (constantPipe "b").names ∧ (constantPipe "b").decl = [] ∧
      (Node.action 1 (constantPipe "b")).Occurs [.branch .ifThen 0 hookedPipe ⟨0, letters⟩ none] ∧
      rendered hooked true = some (none, "ac") ∧ rendered hookedAction true = some (none, "abc") :=
  ⟨(fun _ h => nomatch h), rfl, .inBody _ _ _ _ _ _ (.behind _ (.here _)), by decide +kernel,
    by decide +kernel⟩

end Compile
end Stencil
