import Stencil.Proofs.Independence
import Stencil.Proofs.Pooling
import Stencil.Proofs.TablePositions

/-!
# Locating errors

Where runtime errors are reported. An error that an instruction raises is given the position that the
table of the running template has for the instruction. On its way out of the templates that have called
this one it keeps its place, as it has one already: every instruction of a compiled template has an entry
at its offset or behind it.
-/

namespace Stencil

namespace Program

/-- Whether the instruction at a point fails with an error: its step fails, it jumps out of the code, or
it calls a template that is not named or that does not exist. -/
inductive FailsAt (p : Program) (P : Point) : RuntimeError → Prop where
  | step {i : Instr} {e : RuntimeError} {m : Machine} : P.code[P.pc]? = some i →
      (∀ ns index, i ≠ .template ns index) → P.machine.step p.schema p.tables i = .fail e m →
      FailsAt p P e
  | jump {i : Instr} {k : Int} {m : Machine} : P.code[P.pc]? = some i →
      P.machine.step p.schema p.tables i = .jump k m → jumpTarget? P.pc k P.code.length = none →
      FailsAt p P Machine.jumpOutOfRange
  | callee {ns index : Nat} {e : RuntimeError} : P.code[P.pc]? = some (.template ns index) →
      P.machine.callee p ns index = .error e → FailsAt p P e
  | missing {ns index : Nat} {nsName target : String} {v : Value} :
      P.code[P.pc]? = some (.template ns index) →
      P.machine.callee p ns index = .ok (nsName, target, v) → p.templates[target]? = none →
      FailsAt p P (.undefinedTemplate target)

variable {p : Program} {start P : Point} {fuel pc : Nat} {name : String} {t : CompiledTemplate}
  {m after : Machine} {callers : List String} {e : RuntimeError}

/-- A point at which a run fails is inside its code. -/
theorem FailsAt.lt_length (h : p.FailsAt P e) : P.pc < P.code.length := by
  cases h <;> exact Env.getElem?_lt ‹_›

/-- Whether an error has been raised by the innermost template at a point of a run and is located where
the table of this template says. -/
def RaisedAt (p : Program) (start : Point) (e : ExecutionError) : Prop :=
  ∃ P name callers u, p.Reaches start P ∧ P.chain = name :: callers ∧ p.templates[name]? = some u ∧
    P.code = u.code.toList ∧ p.FailsAt P e.kind ∧ e.location = u.locate name P.pc

/-- If each instruction of each template has a place, a run that fails has got to an instruction that
fails, and the error is located there. -/
theorem Executes.raisedAt {r : Run} (h : p.Executes name t pc m r)
    (hp : ∀ (name : String) (u : CompiledTemplate), p.templates[name]? = some u →
      ∀ pc < u.code.size, (u.locate name pc).isSome)
    (ht : p.templates[name]? = some t) (hreach : p.Reaches start ⟨name :: callers, t.code.toList, pc, m⟩)
    {e : ExecutionError} (hfailed : r = .failed e after) : p.RaisedAt start e := by
  induction h generalizing e after callers with
  | stop => cases hfailed
  | next hi hnot hstep _ ih => exact ih ht (hreach.next hi ((Env.instr_eq_done hnot).mpr hstep)) hfailed
  | jump hi hstep htarget _ ih => exact ih ht (hreach.jump hi hstep htarget) hfailed
  | call hi hcallee hu hbody _ _ ih =>
    obtain ⟨fuel, hrun⟩ := hbody.exists_fuel
    exact ih ht (hreach.next hi (instr_of_done hcallee hu hrun)) hfailed
  | raise hi hcallee hu hbody ih =>
    cases hfailed
    have hinner := ih hu (hreach.call hi hcallee hu) rfl
    have hplace := hbody.isSome_location hp (hp _ _ hu) rfl
    -- the error has a place already, so its caller does not give it another one
    rwa [ExecutionError.orLocate_of_isSome hplace]
  | fail hi hnot hstep =>
    cases hfailed
    exact ⟨_, _, callers, _, hreach, rfl, ht, rfl, .step hi hnot hstep, rfl⟩
  | astray hi hstep htarget =>
    cases hfailed
    exact ⟨_, _, callers, _, hreach, rfl, ht, rfl, .jump hi hstep htarget, rfl⟩
  | uncalled hi hcallee =>
    cases hfailed
    exact ⟨_, _, callers, _, hreach, rfl, ht, rfl, .callee hi hcallee, rfl⟩
  | missing hi hcallee hnone =>
    cases hfailed
    exact ⟨_, _, callers, _, hreach, rfl, ht, rfl, .missing hi hcallee hnone, rfl⟩

/-- A run that fails does so at a point that it reaches, with the location of that point. -/
theorem raisedAt_of_runFrom (hp : ∀ (name : String) (u : CompiledTemplate), p.templates[name]? = some u →
      ∀ pc < u.code.size, (u.locate name pc).isSome)
    (ht : p.templates[name]? = some t) (hreach : p.Reaches start ⟨name :: callers, t.code.toList, pc, m⟩)
    {e : ExecutionError} (h : p.runFrom fuel name t pc m = .failed e after) : p.RaisedAt start e :=
  (executes_of_runFrom h nofun).raisedAt hp ht hreach rfl

end Program

namespace Session

/-- The machine that a render starts on: it has the stacks that the session hands out, and writes to the
sink of the request. -/
def machineFor (s : Session) (r : RenderRequest) : Machine :=
  { (s.checkout (s.options.override r.options).poolStates).1 with
    dot := .nil
    sink := r.sink
    streams := s.streams }

/-- A session that hands out stacks keeps its program and its streams. -/
theorem exists_checkout (s : Session) (pooled : Bool) :
    ∃ pool, (s.checkout pooled).2 = { s with pool := pool } := by
  unfold checkout
  split
  · exact ⟨_, rfl⟩
  · exact ⟨s.pool, rfl⟩

/-- A render that fails with a runtime error has run a template that exists. -/
theorem exists_run_of_failed {s s' : Session} {fuel : Nat} {r : RenderRequest} {e : ExecutionError}
    {source : Option String} {sink : Sink}
    (h : s.render fuel r = (.failed (.runtime e source) sink, s')) :
    ∃ (t : CompiledTemplate) (after : Machine), s.program.templates[r.name]? = some t ∧
      s.program.run fuel r.name r.data r.vars.toValue (s.machineFor r) = .failed e after := by
  unfold render at h
  by_cases hname : s.program.hasTemplate r.name
  · obtain ⟨pool, hcheckout⟩ := s.exists_checkout (s.options.override r.options).poolStates
    rw [if_pos hname] at h
    simp only [hcheckout] at h
    obtain ⟨t, ht⟩ : ∃ t, s.program.templates[r.name]? = some t :=
      Option.isSome_iff_exists.mp (by rwa [Std.TreeMap.isSome_getElem?_eq_contains])
    split at h
    · cases h
    · next e' after hrun =>
      simp only [runtimeError, Prod.mk.injEq, Rendered.failed.injEq, EngineError.runtime.injEq] at h
      obtain ⟨⟨⟨rfl, -⟩, -⟩, -⟩ := h
      exact ⟨t, after, ht, hrun⟩
    · cases h
  · rw [if_neg hname] at h
    cases h

end Session

namespace Compile

variable {schema : Schema} {registry : Registry} {options : CompileOptions} {set : TemplateSet}
  {p : Program} {name : String} {u : CompiledTemplate}

/-- The position that is found for an instruction is one of the tree. -/
theorem WrittenFrom.exists_locate {c : Context} {tree : Tree} {t : Tables} (h : WrittenFrom c tree t u)
    (name : String) {pc : Nat} (hpc : pc < u.code.size) :
    ∃ loc, u.locate name pc = some loc ∧ loc.template = name ∧ loc.offset ∈ tree.positions := by
  obtain ⟨loc, hloc⟩ := Option.isSome_iff_exists.mp (h.isSome_locate name pc hpc)
  obtain ⟨pos, hfound, rfl⟩ := Option.map_eq_some_iff.mp hloc
  obtain ⟨entry, hentry, rfl⟩ := Option.map_eq_some_iff.mp hfound
  exact ⟨_, hloc, rfl, h.marks.2.2 entry (Array.mem_of_find?_eq_some hentry)⟩

/-- Every runtime error is located in the template that has failed. In the table of each compiled
template the entries are in order and each instruction has one at its offset or behind it. A render that
fails with a runtime error has got to an instruction that fails with it, and the error is located in the
innermost template that is running there, at a position of the tree of this template. The run has started
on the machine that the session has for it. -/
theorem runtime_errors_are_located (hcompile : compile schema registry options set = .ok p) :
    (∀ (name : String) (u : CompiledTemplate), p.templates[name]? = some u →
      u.marks.toList.Pairwise (·.pc ≤ ·.pc) ∧ ∀ pc < u.code.size, ∃ entry ∈ u.marks, pc ≤ entry.pc) ∧
    ∀ (s s' : Session) (fuel : Nat) (r : RenderRequest) (e : ExecutionError) (source : Option String)
        (sink : Sink), s.program = p → s.render fuel r = (.failed (.runtime e source) sink, s') →
      ∃ (t : CompiledTemplate) (P : Point) (name : String) (callers : List String)
          (u : CompiledTemplate) (tree : Tree) (loc : Location),
        p.templates[r.name]? = some t ∧
        p.Reaches (Program.startPoint r.name t r.data r.vars.toValue (s.machineFor r)) P ∧
        P.chain = name :: callers ∧ p.templates[name]? = some u ∧ P.code = u.code.toList ∧
        p.FailsAt P e.kind ∧ set.get? name = some tree ∧
        e.location = some loc ∧ loc.template = name ∧ loc.offset ∈ tree.positions := by
  constructor
  · intro name u hu
    obtain ⟨tree, -, hwritten⟩ := exists_tree_of_compile hcompile hu
    exact ⟨hwritten.marks.1, hwritten.marks.2.1⟩
  · intro s s' fuel r e source sink hprogram hrender
    subst hprogram
    obtain ⟨t, after, ht, hrun⟩ := Session.exists_run_of_failed hrender
    simp only [Program.run, ht] at hrun
    have hraised : s.program.RaisedAt
        (Program.startPoint r.name t r.data r.vars.toValue (s.machineFor r)) e :=
      Program.raisedAt_of_runFrom (isSome_locate_of_compile hcompile) ht .refl hrun
    obtain ⟨P, name, callers, u, hreach, hchain, hu, hcode, hfails, hplace⟩ := hraised
    obtain ⟨tree, htree, hwritten⟩ := exists_tree_of_compile hcompile hu
    have hlt : P.pc < u.code.size := by simpa [hcode] using hfails.lt_length
    obtain ⟨loc, hloc, htemplate, hoffset⟩ := hwritten.exists_locate name hlt
    exact ⟨t, P, name, callers, u, tree, loc, ht, hreach, hchain, hu, hcode, hfails, htree,
      hplace.trans hloc, htemplate, hoffset⟩

end Compile

/-! ### Samples -/

namespace Sample

/-- `x{{template "part"}}`, where `part` is `{{$y}}` and `$y` is not declared. -/
def nested : TemplateSet :=
  (TemplateSet.ofRoot ⟨"main", ⟨0, [.text 0 "x", .template 1 "part" none]⟩, none⟩).insert
    ⟨"part", ⟨0, [.action 0 (.mk 2 false [] [.mk 2 [.var ⟨2, ["$y"]⟩]])]⟩, none⟩

/-- The error of the sample. -/
def nestedError : ExecutionError := ⟨.undefinedVariable "y", some ⟨"part", 2, none⟩⟩

end Sample

namespace Compile

/-- The variable of the sample is missed in the template that is called. -/
theorem runtime_errors_are_located_sample :
    ∃ p source sink s', compile .plain .empty .standard Sample.nested = .ok p ∧
      (Session.start p .standard .none).render 100 ⟨"main", .nil, .empty, ⟨none⟩, .unlimited⟩ =
        (.failed (.runtime Sample.nestedError source) sink, s') ∧
      ∃ t P callers tree, p.templates["main"]? = some t ∧
        p.Reaches (Program.startPoint "main" t .nil Vars.empty.toValue (.fresh .unlimited .none)) P ∧
        P.chain = "part" :: callers ∧ p.FailsAt P (.undefinedVariable "y") ∧
        Sample.nested.get? "part" = some tree ∧ 2 ∈ tree.positions := by
  obtain ⟨p, hp⟩ := exists_of_isOk
    (show (compile .plain .empty .standard Sample.nested).isOk by decide +kernel)
  have hrender : (compile .plain .empty .standard Sample.nested).toOption.all fun p =>
      match (Session.start p .standard .none).render 100 ⟨"main", .nil, .empty, ⟨none⟩, .unlimited⟩ with
      | (.failed (.runtime e _) _, _) => e == Sample.nestedError
      | (.failed (.misuse _) _, _) | (.failed (.compilation _ _) _, _) | (.done _, _)
      | (.outOfFuel, _) => false := by
    decide +kernel
  rw [hp] at hrender
  simp only [Except.toOption, Option.all_some] at hrender
  split at hrender
  · next e source sink s' heq =>
    rw [beq_iff_eq.mp hrender] at heq
    obtain ⟨t, P, name, callers, u, tree, loc, ht, hreach, hchain, -, -, hfails, htree, hloc,
      htemplate, hoffset⟩ := (runtime_errors_are_located hp).2 _ _ _ _ _ _ _ rfl heq
    cases hloc
    subst htemplate
    exact ⟨p, source, sink, s', hp, heq, t, P, callers, tree, ht, hreach, hchain, hfails, htree,
      hoffset⟩
  all_goals cases hrender

end Compile
end Stencil
