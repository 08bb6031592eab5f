import Stencil.Proofs.Demands
import Stencil.Proofs.Overflow
import Stencil.Proofs.PlainCalls

/-!
# Acceptance

Which template sets can be compiled. Apart from full tables a well-formed set is refused only if one of
its demands is not met, and it is always refused then. So nothing that is looked up can be missing in a
program, and nothing else has to be there.
-/

namespace Stencil

/-- Whether an error is about the code, which does not fit or pops too much, and not about the tree. -/
def CompileErrorKind.isOfCode : CompileErrorKind → Bool
  | .tableOverflow _ | .unbalanced _ => true
  | _ => false

namespace Compile

variable {c : Context} {pos : Pos} {s s' s₁ : State} {f f' g : Fragment} {t t' : Tables}
  {syms more : List Symbol} {P P' : Prop}

/-! ### Steps that decide -/

/-- Whether a step of compilation fails if something does not hold, ends as told if it holds, and fails
otherwise only because of the code. -/
def Decides {α : Type} (x : M α) (s : State) (P : Prop) (Q : α → State → Prop) : Prop :=
  match x s with
  | .ok (a, s') => P ∧ Q a s'
  | .error e => e.kind.isOfCode ∨ ¬P

section

variable {α β : Type} {x : M α} {next : α → M β} {Q : α → State → Prop} {R : β → State → Prop}

/-- If a step succeeds, what it depends on holds, and it ends as told. -/
theorem Decides.of_ok (h : Decides x s P Q) {a : α} (hx : x s = .ok (a, s')) : P ∧ Q a s' := by
  rw [Decides, hx] at h
  exact h

/-- If a step fails, it is because of the code or because what it depends on does not hold. -/
theorem Decides.of_error (h : Decides x s P Q) {e : CompileError} (hx : x s = .error e) :
    e.kind.isOfCode ∨ ¬P := by
  rw [Decides, hx] at h
  exact h

/-- What is told of the end of a step may be weakened. -/
theorem Decides.mono (h : Decides x s P Q) {Q' : α → State → Prop} (hQ : ∀ a s', Q a s' → Q' a s') :
    Decides x s P Q' := by
  unfold Decides at h ⊢
  split
  · next hx =>
    rw [hx] at h
    exact ⟨h.1, hQ _ _ h.2⟩
  · next hx =>
    rw [hx] at h
    exact h

/-- What a step depends on may be told in another way. -/
theorem Decides.iff (h : Decides x s P Q) (hP : P ↔ P') : Decides x s P' Q := by
  rwa [← propext hP]

/-- A step that does nothing depends on nothing. -/
theorem decides_pure {a : α} (h : Q a s) : Decides (pure a) s True Q := ⟨trivial, h⟩

/-- Looking at the state decides nothing. -/
theorem decides_get_bind {next : State → M β} (h : Decides (next s) s P R) :
    Decides (get >>= next) s P R := h

/-- Changing the state decides nothing. -/
theorem decides_modify_bind {change : State → State} {next : PUnit → M β}
    (h : Decides (next ⟨⟩) (change s) P R) : Decides (modify change >>= next) s P R := h

/-- A step that fails decides what does not hold, or is about the code. -/
theorem decides_fail {kind : CompileErrorKind} (h : kind.isOfCode ∨ ¬P) :
    Decides (fail c pos kind : M α) s P Q := h

/-- Two steps decide what each of them decides. -/
theorem Decides.bind (h : Decides x s P Q) (hnext : ∀ a s', Q a s' → Decides (next a) s' P' R) :
    Decides (x >>= next) s (P ∧ P') R := by
  cases hx : x s with
  | error e =>
    rw [Decides, bind_of_eq_error hx]
    exact (h.of_error hx).imp_right fun hP hboth => hP hboth.1
  | ok r =>
    obtain ⟨hP, hQ⟩ := h.of_ok hx
    rw [Decides, bind_of_eq_ok hx]
    have hrest := hnext r.1 r.2 hQ
    unfold Decides at hrest
    split
    · next hrun =>
      rw [hrun] at hrest
      exact ⟨⟨hP, hrest.1⟩, hrest.2⟩
    · next hrun =>
      rw [hrun] at hrest
      exact hrest.imp_right fun hP' hboth => hP' hboth.2

/-- A step that decides nothing can be put in front. -/
theorem Decides.andThen (h : Decides x s True Q) (hnext : ∀ a s', Q a s' → Decides (next a) s' P R) :
    Decides (x >>= next) s P R := (h.bind hnext).iff (Iff.of_eq (true_and _))

/-- A step that decides nothing can be put behind. -/
theorem Decides.finish (h : Decides x s P Q) (hnext : ∀ a s', Q a s' → Decides (next a) s' True R) :
    Decides (x >>= next) s P R := (h.bind hnext).iff (Iff.of_eq (and_true _))

/-- A step that fails only if a table is full decides nothing. -/
theorem OnlyOverflows.decides (h : OnlyOverflows x s) (hx : Yields x s Q) : Decides x s True Q := by
  unfold Decides
  split
  · next hrun => exact ⟨trivial, hx _ _ hrun⟩
  · next e hrun =>
    obtain ⟨table, hkind⟩ := h e hrun
    exact .inl (by rw [hkind]; rfl)

end

/-! ### Code that is told from the tree -/

/-- Whether the code of a fragment is what symbols tell, after compilation has gone on. -/
structure Encodes (c : Context) (s : State) (syms : List Symbol) (f : Fragment) (s' : State) : Prop where
  stays : StaysReady c s s'
  ready : s'.Ready c
  denotes : Denotes s'.tables f.instrs syms

/-- A mark changes nothing in the symbols of code. -/
theorem Encodes.mark (h : Encodes c s syms f s') (pos : Pos) : Encodes c s syms (f.mark pos) s' :=
  ⟨h.stays, h.ready, h.denotes⟩

/-- Marking a fragment decides nothing. -/
theorem Decides.mark {x : M Fragment} (h : Decides x s P (Encodes c s₁ syms)) (pos : Pos) :
    Decides (do return (← x).mark pos) s P (Encodes c s₁ syms) :=
  h.finish fun _ _ hg => decides_pure (hg.mark pos)

/-- Code encodes its symbols whatever has been interned before it. -/
theorem Encodes.trans (hstays : StaysReady c s s₁) (h : Encodes c s₁ syms f s') :
    Encodes c s syms f s' := ⟨hstays.trans h.stays, h.ready, h.denotes⟩

/-- An instruction is added after the tables have got its entry. -/
theorem Encodes.push (hs : s.Ready c) (hf : Denotes s.tables f.instrs syms) (hstays : StaysReady c s s')
    {i : Instr} {sym : Symbol} (hi : symbol? s'.tables i = some sym) :
    Encodes c s (syms ++ [sym]) (f.push i) s' where
  stays := hstays
  ready := hstays.ready hs
  denotes := by
    rw [Fragment.instrs_push]
    exact (hf.mono hstays.extends_).push hi

/-- Interning fails only because of full tables. -/
theorem decides_intern (str : String) :
    Decides (intern c pos str) s True fun i s' =>
      StaysReady c s s' ∧ (s.Ready c → s'.tables.strings[i]? = some str) := by
  refine (onlyOverflows_addEntry _ _).decides
    (yields_ready_addEntry (fun i t => t.strings[i]? = some str) fun i t hadd => ?_)
  obtain ⟨hextends, hsound, hentry⟩ := Tables.addString_eq_some hadd
  exact ⟨hextends, fun hs => ⟨hs.registered.addString hadd, hentry (hsound hs.registered.sound)⟩⟩

/-- Pushing a value adds its symbol, whatever the value is. -/
theorem decides_pushValue (hs : s.Ready c) (hf : Denotes s.tables f.instrs syms) (v : Value) :
    Decides (pushValue c pos f v) s True (Encodes c s (syms ++ [.push v])) := by
  have hadd : Decides (addValue c pos v) s True fun i s' =>
      StaysReady c s s' ∧ (s.Ready c → s'.tables.values[i]? = some v) := by
    refine (onlyOverflows_addEntry _ _).decides
      (yields_ready_addEntry (fun i t => t.values[i]? = some v) fun i t hadd => ?_)
    obtain ⟨hextends, -, hentry⟩ := Tables.addValue_eq_some hadd
    exact ⟨hextends, fun hs => ⟨hs.registered.of_alike (.of_addValue hadd), hentry⟩⟩
  refine hadd.andThen fun i s' hi => decides_pure (.push hs hf hi.1 ?_)
  simp only [symbol?, hi.2 hs, Option.map_some]

/-- Each field of a path adds one symbol. -/
theorem decides_fields (argc : Nat) (path : List String) (hs : s.Ready c)
    (hf : Denotes s.tables f.instrs syms) :
    Decides (fields c pos argc f path) s True (Encodes c s (syms ++ path.map fun _ => .other)) := by
  induction path generalizing f s syms with
  | nil => exact decides_pure ⟨.refl c s, hs, by rwa [List.map_nil, List.append_nil]⟩
  | cons name rest ih =>
    refine (decides_intern name).andThen fun index s₁ hindex => ?_
    have hpush : Encodes c s (syms ++ [.other])
        (f.push (.field (if rest.isEmpty then argc else 0) index)) s₁ := .push hs hf hindex.1 rfl
    refine (ih hpush.ready hpush.denotes).mono fun g s₂ hrest => ?_
    rw [List.append_assoc] at hrest
    exact .trans hpush.stays hrest

/-- Each variable that is bound adds one symbol. -/
theorem decides_bindAll (assign : Bool) (decl : List Variable) (hs : s.Ready c)
    (hf : Denotes s.tables f.instrs syms) :
    Decides (bindAll c assign f decl) s True (Encodes c s (syms ++ decl.map fun _ => .other)) := by
  induction decl generalizing f s syms with
  | nil => exact decides_pure ⟨.refl c s, hs, by rwa [List.map_nil, List.append_nil]⟩
  | cons v rest ih =>
    refine (decides_intern v.name).andThen fun name s₁ hname => ?_
    have hpush (declared : List Nat) : Encodes c s (syms ++ [.other]) (f.push (.setVar name assign))
        { s₁ with declared := declared } := .push hs hf hname.1.declared rfl
    have hrest (declared : List Nat) : Decides (bindAll c assign (f.push (.setVar name assign)) rest)
        { s₁ with declared := declared } True
          (Encodes c s (syms ++ (v :: rest).map fun _ => .other)) := by
      refine (ih (hpush declared).ready (hpush declared).denotes).mono fun g s₂ hrest => ?_
      rw [List.append_assoc] at hrest
      exact .trans (hpush declared).stays hrest
    cases assign with
    | true => exact hrest s₁.declared
    | false => exact hrest (name :: s₁.declared)

/-- Pushing values adds their symbols. -/
theorem decides_pushValues (values : List Value) (hs : s.Ready c)
    (hf : Denotes s.tables f.instrs syms) :
    Decides (pushValues c pos f values) s True (Encodes c s (syms ++ values.map .push)) := by
  induction values generalizing f s syms with
  | nil => exact decides_pure ⟨.refl c s, hs, by rwa [List.map_nil, List.append_nil]⟩
  | cons v values ih =>
    refine (decides_pushValue hs hf v).andThen fun g s₁ hg => ?_
    refine (ih hg.ready hg.denotes).mono fun g' s₂ hrest => ?_
    rw [List.append_assoc] at hrest
    exact .trans hg.stays hrest

/-- Folding never fails for another reason than the code, and does to the symbols what it does to the code. -/
theorem decides_fold (hs : s.Ready c) (hf : Denotes s.tables f.instrs syms) :
    Decides (fold c pos f) s True (Encodes c s (foldSymbols c syms)) := by
  have hkept : Encodes c s syms f s := ⟨.refl c s, hs, hf⟩
  have hvalues (values : List Value) :
      Decides (pushValues c pos .empty values) s True (Encodes c s (values.map .push)) :=
    have hempty : Denotes s.tables Fragment.empty.instrs [] := denotes_nil s.tables
    decides_pushValues values hs hempty
  have hsame : (c.options.foldConstants && decide (1 < f.size) && f.code.all (isConstant s.tables)) =
      (c.options.foldConstants && decide (1 < syms.length) && syms.all Symbol.isConstant) := by
    rw [Fragment.size_eq_length, hf.length_eq, ← hf.all_isConstant, ← Array.all_toList]
    rfl
  unfold fold foldSymbols
  refine decides_get_bind ?_
  simp only [hsame]
  split
  · next hfolds =>
    simp only [Bool.and_eq_true] at hfolds
    rw [hf.evaluate? hfolds.2]
    cases Symbol.evaluate? syms [] with
    | some values => exact hvalues values
    | none => exact decides_pure hkept
  · exact decides_pure hkept

/-! ### What pipelines demand -/

/-- Whether compilation can go on with the next statement. -/
def EndsReady {α : Type} (c : Context) (_ : α) (s : State) : Prop := s.Ready c

/-- Whether all demands are met. -/
def AllMet (c : Context) (demands : List Demand) : Prop := ∀ d ∈ demands, d.IsMet c.registry c.set

/-- No demands are always met. -/
theorem allMet_nil : AllMet c [] ↔ True := by simp [AllMet]

/-- The demands of two parts are met exactly if those of both are. -/
theorem allMet_append {first rest : List Demand} :
    AllMet c (first ++ rest) ↔ AllMet c first ∧ AllMet c rest := List.forall_mem_append

/-- A single demand is met exactly if it is. -/
theorem allMet_singleton {d : Demand} : AllMet c [d] ↔ d.IsMet c.registry c.set :=
  List.forall_mem_singleton

/-- A number has a value exactly if what is demanded of it is met. -/
theorem isSome_numberValue? (n : Number) :
    (numberValue? n).isSome ↔ (Demand.number n).IsMet c.registry c.set := by
  unfold numberValue? Demand.IsMet
  rcases n with ⟨pos, text, _ | i, _ | x⟩ <;> cases hlooks : looksFractional text <;> simp [hlooks]

/-- A call is decided by the registry. -/
theorem decides_callNamed (argc : Nat) (name : String) (hs : s.Ready c)
    (hf : Denotes s.tables f.instrs syms) :
    Decides (callNamed c pos argc f name) s (AllMet c [.function name]) fun f' s' =>
      ∃ function, c.registry.get? name = some function ∧
        Encodes c s (syms ++ [.call argc function]) f' s' := by
  rw [allMet_singleton, Demand.IsMet]
  unfold callNamed
  cases hfunction : c.registry.get? name with
  | none => exact decides_fail (.inr Bool.false_ne_true)
  | some function =>
    have hadd : Decides (addEntry c pos "function" (·.addFunc function)) s True fun i s' =>
        StaysReady c s s' ∧ (s.Ready c → s'.tables.funcs[i]? = some function) :=
      (onlyOverflows_addEntry _ _).decides (yields_ready_addFunc hfunction)
    refine (hadd.andThen fun i s' hi => decides_pure ⟨function, rfl, .push hs hf hi.1 ?_⟩).iff
      (by simp)
    simp only [symbol?, hi.2 hs, Option.map_some]

/-- A name is decided by what is looked up for it. -/
theorem decides_identifier (argc : Nat) {name : String} (hname : isHook name = false) (hs : s.Ready c)
    (hf : Denotes s.tables f.instrs syms) :
    Decides (identifier c pos argc f name) s (AllMet c (Operand.demands c argc syms (.ident pos name)))
      (Encodes c s (callBehind c argc syms name)) := by
  have hlooked : resolve c.options s.noPrint (knownOperand s.tables argc f) name =
      lookedUp? c argc syms name := by
    rw [lookedUp?, hname, if_neg Bool.false_ne_true, hs.noPrint, hf.knownOperand]
  unfold Decides
  rw [identifier_eq hname, hlooked]
  unfold Operand.demands callBehind
  cases lookedUp? c argc syms name with
  | none => exact ⟨allMet_nil.mpr trivial, .refl c s, hs, hf⟩
  | some known =>
    refine (decides_callNamed argc known hs hf).mono fun f' s' hcall => ?_
    obtain ⟨function, hfunction, hencodes⟩ := hcall
    simpa only [hfunction] using hencodes

mutual

/-- An operand is compiled exactly if its demands are met. -/
theorem decides_operand (argc : Nat) : ∀ (a : Operand) (f : Fragment) (s : State) (syms : List Symbol),
    NoHooks a.names → s.Ready c → Denotes s.tables f.instrs syms →
    Decides (operand c argc f a) s (AllMet c (a.demands c argc syms)) (Encodes c s (a.symbols c argc syms))
  | .bool pos b, f, s, syms, _, hs, hf =>
    ((decides_pushValue hs hf (.bool b)).mark pos).iff allMet_nil.symm
  | .number n, f, s, syms, _, hs, hf => by
    have hmet := isSome_numberValue? (c := c) n
    unfold operand Operand.demands Operand.symbols
    cases hvalue : numberValue? n with
    | some v =>
      rw [hvalue] at hmet
      refine ((decides_pushValue hs hf v).mark n.pos).iff ?_
      rw [allMet_singleton, ← hmet]
      simp
    | none =>
      rw [hvalue] at hmet
      refine decides_fail (.inr ?_)
      rw [allMet_singleton, ← hmet]
      simp
  | .string pos str, f, s, syms, _, hs, hf => by
    refine ((decides_intern str).finish fun index s₁ hindex => decides_pure ?_).iff allMet_nil.symm
    have hstring : symbol? s₁.tables (.string index) = some (.push (.str str)) := by
      rw [symbol?, (hindex.1.ready hs).registered.sound.texts, hindex.2 hs, Option.map_some]
    exact (Encodes.push hs hf hindex.1 hstring).mark pos
  | .nil pos, f, s, syms, _, hs, hf =>
    ((decides_pushValue hs hf .nil).mark pos).iff allMet_nil.symm
  | .dot pos, f, s, syms, _, hs, hf =>
    (decides_pure ((Encodes.push hs hf (.refl c s) rfl).mark pos)).iff allMet_nil.symm
  | .field pos path, f, s, syms, _, hs, hf => by
    have hdot : Encodes c s (syms ++ [.other]) (f.push .dot) s := .push hs hf (.refl c s) rfl
    exact ((decides_fields argc path hdot.ready hdot.denotes).mark pos).iff allMet_nil.symm
  | .chain pos inner path, f, s, syms, hnames, hs, hf =>
    (decides_operand 0 inner f s syms hnames hs hf).finish fun g s₁ hinner =>
      ((decides_fields argc path hinner.ready hinner.denotes).mark pos).mono fun _ _ h =>
        .trans hinner.stays h
  | .var v, f, s, syms, _, hs, hf => by
    refine Decides.iff ?_ allMet_nil.symm
    refine (decides_intern v.name).andThen fun name s₁ hname => ?_
    have hvar : Encodes c s (syms ++ [.other]) (f.push (.var name)) s₁ := .push hs hf hname.1 rfl
    exact ((decides_fields argc v.fields hvar.ready hvar.denotes).mark v.pos).mono fun _ _ h =>
      .trans hvar.stays h
  | .ident pos name, f, s, syms, hnames, hs, hf =>
    (decides_identifier argc (hnames name (List.mem_singleton_self name)) hs hf).mark pos
  | .paren p, f, s, syms, hnames, hs, hf => by
    unfold Operand.demands Operand.symbols
    refine (decides_pipeline p s hnames hs).finish fun g s₁ hg => ?_
    have hboth : Encodes c s (syms ++ p.symbols c) (f.append g) s₁ := by
      refine ⟨hg.stays, hg.ready, ?_⟩
      rw [Fragment.instrs_append]
      exact (hf.mono hg.stays.extends_).append hg.denotes
    cases p.decl.getLast? with
    | some v =>
      refine (decides_intern v.name).andThen fun name s₂ hname => decides_pure ?_
      exact .trans hboth.stays ((Encodes.push hboth.ready hboth.denotes hname.1 rfl).mark p.pos)
    | none =>
      refine decides_pure (Encodes.mark ?_ p.pos)
      rw [Option.map_none, Option.toList_none, List.append_nil]
      exact hboth

/-- Operands are compiled exactly if the demands of all of them are met. -/
theorem decides_operands (argc : Nat) : ∀ (args : List Operand) (f : Fragment) (s : State)
    (syms : List Symbol), NoHooks (Operand.allNames args) → s.Ready c → Denotes s.tables f.instrs syms →
    Decides (operands c argc f args) s (AllMet c (Operand.allDemands c argc syms args))
      (Encodes c s (Operand.allSymbols c argc syms args))
  | [], f, s, syms, _, hs, hf => (decides_pure ⟨.refl c s, hs, hf⟩).iff allMet_nil.symm
  | a :: rest, f, s, syms, hnames, hs, hf => by
    obtain ⟨ha, hrest⟩ := List.forall_mem_append.mp hnames
    refine ((decides_operands 0 rest f s syms hrest hs hf).bind fun g s₁ hargs => ?_).iff
      allMet_append.symm
    exact (decides_operand argc a g s₁ _ ha hargs.ready hargs.denotes).mono fun _ _ hhead =>
      .trans hargs.stays hhead

/-- A command is compiled exactly if its demands are met. -/
theorem decides_command (chained : Bool) : ∀ (cmd : Command) (f : Fragment) (s : State)
    (syms : List Symbol), NoHooks cmd.names → s.Ready c → Denotes s.tables f.instrs syms →
    Decides (command c chained f cmd) s (AllMet c (cmd.demands c chained syms))
      (Encodes c s (cmd.symbols c chained syms))
  | .mk pos args, f, s, syms, hnames, hs, hf => by
    unfold command Command.demands Command.symbols
    simp only
    split
    · exact (decides_operands _ args f s syms hnames hs hf).mark pos
    · exact decides_fail (.inl rfl)

/-- The commands of a chain are compiled exactly if the demands of all of them are met. -/
theorem decides_commands (chained : Bool) : ∀ (cmds : List Command) (f : Fragment) (s : State)
    (syms : List Symbol), NoHooks (Command.allNames cmds) → s.Ready c →
    Denotes s.tables f.instrs syms →
    Decides (commands c chained f cmds) s (AllMet c (Command.allDemands c chained syms cmds))
      (Encodes c s (Command.allSymbols c chained syms cmds))
  | [], f, s, syms, _, hs, hf => (decides_pure ⟨.refl c s, hs, hf⟩).iff allMet_nil.symm
  | cmd :: rest, f, s, syms, hnames, hs, hf => by
    obtain ⟨hcmd, hrest⟩ := List.forall_mem_append.mp hnames
    refine ((decides_command chained cmd f s syms hcmd hs hf).bind fun g s₁ hg => ?_).iff
      allMet_append.symm
    exact (decides_commands true rest g s₁ _ hrest hg.ready hg.denotes).mono fun _ _ h =>
      .trans hg.stays h

/-- A pipeline without asset hooks is compiled if its demands are met, to the code that the tree tells. -/
theorem decides_pipeline : ∀ (pipe : Pipeline) (s : State), NoHooks pipe.names → s.Ready c →
    Decides (pipeline c true pipe) s (AllMet c (pipe.demands c)) (Encodes c s (pipe.symbols c))
  | .mk _ assign decl cmds, s, hnames, hs =>
    (decides_commands false cmds .empty s [] hnames hs (denotes_nil s.tables)).finish fun _ _ hbody =>
      (decides_fold hbody.ready hbody.denotes).andThen fun _ _ hfold =>
        (decides_bindAll assign decl hfold.ready hfold.denotes).andThen fun _ _ hbind =>
          decides_pure ((Encodes.trans hbody.stays (.trans hfold.stays hbind)).mark _)

end

/-- The condition of a branch is compiled if its demands are met. -/
theorem decides_condition : ∀ (pipe : Pipeline) (s : State), NoHooks pipe.names → s.Ready c →
    Decides (pipeline c false pipe) s (AllMet c (pipe.demands c)) (EndsReady c)
  | .mk _ _ _ cmds, s, hnames, hs =>
    (decides_commands false cmds .empty s [] hnames hs (denotes_nil s.tables)).finish fun _ _ hbody =>
      (decides_fold hbody.ready hbody.denotes).andThen fun _ _ hfold => decides_pure hfold.ready

end Compile

/-! ### Asset hooks -/

mutual

/-- Well-formed operands call no asset hook. -/
theorem Operand.noHooks_of_wellFormed {called : Bool} : ∀ a : Operand, a.wellFormed called →
    Compile.NoHooks a.names
  | .ident _ name, h => by
    simp only [Operand.wellFormed, Bool.and_eq_true, Bool.not_eq_true'] at h
    exact List.forall_mem_singleton.mpr h.1
  | .chain _ inner _, h => Operand.noHooks_of_wellFormed inner h
  | .paren p, h => Pipeline.noHooks_of_wellFormed p h
  | .bool .., _ | .number _, _ | .string .., _ | .nil _, _ | .dot _, _ | .field .., _ | .var _, _ =>
    List.forall_mem_nil _

/-- Nor do several of them. -/
theorem Operand.allNoHooks_of_wellFormed : ∀ args : List Operand, Operand.allWellFormed args →
    Compile.NoHooks (Operand.allNames args)
  | [], _ => List.forall_mem_nil _
  | a :: rest, h => by
    simp only [Operand.allWellFormed, Bool.and_eq_true] at h
    exact List.forall_mem_append.mpr
      ⟨Operand.noHooks_of_wellFormed a h.1, Operand.allNoHooks_of_wellFormed rest h.2⟩

/-- Well-formed commands call no asset hook. -/
theorem Command.noHooks_of_wellFormed {chained : Bool} : ∀ cmd : Command, cmd.wellFormed chained →
    Compile.NoHooks cmd.names
  | .mk _ [], _ => List.forall_mem_nil _
  | .mk _ (head :: rest), h => by
    simp only [Command.wellFormed, Bool.and_eq_true] at h
    exact List.forall_mem_append.mpr
      ⟨Operand.noHooks_of_wellFormed head h.1, Operand.allNoHooks_of_wellFormed rest h.2⟩

/-- Nor do several of them. -/
theorem Command.allNoHooks_of_wellFormed : ∀ cmds : List Command, Command.allWellFormed cmds →
    Compile.NoHooks (Command.allNames cmds)
  | [], _ => List.forall_mem_nil _
  | cmd :: rest, h => by
    simp only [Command.allWellFormed, Bool.and_eq_true] at h
    exact List.forall_mem_append.mpr
      ⟨Command.noHooks_of_wellFormed cmd h.1, Command.allNoHooks_of_wellFormed rest h.2⟩

/-- A well-formed pipeline names no asset hook. -/
theorem Pipeline.noHooks_of_wellFormed {vars : Nat} : ∀ pipe : Pipeline, pipe.wellFormed vars →
    Compile.NoHooks pipe.names
  | .mk _ _ _ [], _ => List.forall_mem_nil _
  | .mk _ _ _ (cmd :: rest), h => by
    simp only [Pipeline.wellFormed, Bool.and_eq_true] at h
    exact List.forall_mem_append.mpr
      ⟨Command.noHooks_of_wellFormed cmd h.1.2, Command.allNoHooks_of_wellFormed rest h.2⟩

end

namespace Compile

variable {c : Context} {pos : Pos} {s s' : State} {f g : Fragment} {P : Prop}

/-- An asset hook demands nothing. -/
theorem demands_of_isHook {pipe : Pipeline} (h : pipe.isHook) : pipe.demands c = [] := by
  unfold Pipeline.isHook at h
  split at h
  · simp [Pipeline.demands, Command.allDemands, Command.demands, Operand.allDemands, Operand.demands,
      lookedUp?, h]
  · cases h

/-- What is known behind an asset hook: there is at most one instruction, and the state is ready again
when its action lets printing go on. -/
def EndsHook (c : Context) (f : Fragment) (s : State) : Prop :=
  f.size ≤ 1 ∧ State.Ready c { s with noPrint := false }

/-- An asset hook writes its bytes, if there are any. -/
theorem decides_hook (argc : Nat) {name : String} (h : isHook name) (hs : s.Ready c) :
    Decides (identifier c pos argc .empty name) s True (EndsHook c) := by
  obtain ⟨bytes, hbytes⟩ := exists_assetBytes? c.set h
  have hends (f : Fragment) (s : State) (hf : f.size ≤ 1) (hs : s.Ready c) :
      Decides (do modify ({ · with noPrint := true }); return f) s True (EndsHook c) := by
    have hready : EndsHook c f { s with noPrint := true } := ⟨hf, hs.keyed, hs.registered, rfl⟩
    exact decides_modify_bind (decides_pure hready)
  unfold identifier
  rw [hbytes]
  simp only
  split
  · exact hends .empty s (Nat.zero_le 1) hs
  · have hadd : Decides (addEntry c pos "bytes" (·.addChunk bytes)) s True (EndsReady c) :=
      (onlyOverflows_addEntry _ _).decides fun i s' hrun => by
        obtain ⟨t, hadd, rfl⟩ := addEntry_eq_ok hrun
        exact hs.of_alike ⟨.of_addChunk hadd, rfl, rfl⟩
    have hpush : Decides (pushBytes c pos .empty bytes) s True fun f s' => f.size ≤ 1 ∧ s'.Ready c :=
      hadd.andThen fun index s' hs' => decides_pure ⟨Nat.le_refl 1, hs'⟩
    exact hpush.andThen fun f s' hf => hends f s' hf.1 hf.2

/-- The pipeline of an asset hook is always compiled. -/
theorem decides_hook_pipeline {pipe : Pipeline} (h : pipe.isHook) (hs : s.Ready c) :
    Decides (pipeline c true pipe) s True fun _ s' => State.Ready c { s' with noPrint := false } := by
  unfold Pipeline.isHook at h
  split at h
  · next pos assign pos' pos'' name =>
    have hoperand (argc : Nat) :
        Decides (operand c argc .empty (.ident pos'' name)) s True (EndsHook c) :=
      (decides_hook argc h hs).finish fun _ _ hf => decides_pure hf
    have hcommand : Decides (command c false .empty (.mk pos' [.ident pos'' name])) s True
        (EndsHook c) := by
      unfold command
      simp only
      split
      · exact (hoperand _).finish fun _ _ hf => decides_pure hf
      · exact decides_fail (.inl rfl)
    have hcommands : Decides (commands c false .empty [.mk pos' [.ident pos'' name]]) s True
        (EndsHook c) := hcommand.finish fun _ _ hf => decides_pure hf
    refine hcommands.andThen fun body s₁ hbody => ?_
    have hfold : Decides (fold c pos body) s₁ True (EndsHook c) := by
      unfold Decides
      rw [fold_of_size_le hbody.1]
      exact ⟨trivial, hbody⟩
    exact hfold.andThen fun g s₂ hg => decides_pure hg.2
  · cases h

/-! ### What nodes demand -/

/-- Code that cannot be balanced fails because of the code. -/
theorem isOfCode_of_balance {kind : CompileErrorKind} (h : f.balance = .error kind) : kind.isOfCode := by
  unfold Fragment.balance at h
  split at h
  · cases h
  · simp only at h
    split at h
    · cases h
      rfl
    · split at h
      · cases h
      · split at h
        · cases h
        · cases h
          rfl

/-- Balancing fails only because of the code. -/
theorem decides_balanced (hs : s.Ready c) :
    Decides (balanced c pos f) s True (EndsReady c) := by
  unfold balanced
  split
  · exact decides_pure hs
  · next hbalance => exact decides_fail (.inl (isOfCode_of_balance hbalance))

/-- Writing bytes fails only because of full tables. -/
theorem decides_pushBytes (bytes : ByteArray) (hs : s.Ready c) :
    Decides (pushBytes c pos f bytes) s True (EndsReady c) := by
  have honly : OnlyOverflows (pushBytes c pos f bytes) s :=
    .bind (onlyOverflows_addEntry _ _) fun _ _ _ => onlyOverflows_pure _
  exact honly.decides ((yields_passes_pushBytes f bytes).mono fun _ _ h => (h.2.stays rfl).ready hs)

/-- Text fails only because of full tables. -/
theorem decides_text (str : String) (hs : s.Ready c) :
    Decides (text c pos f str) s True (EndsReady c) := by
  unfold text
  simp only
  split
  · exact decides_pure hs
  · exact decides_pushBytes _ hs

/-- An action is compiled exactly if the demands of its pipeline are met. -/
theorem decides_action {pipe : Pipeline} (hwf : pipe.isHook || pipe.wellFormed 1) (hs : s.Ready c) :
    Decides (action c pos f pipe) s (AllMet c (pipe.demands c)) (EndsReady c) := by
  have hpipe : Decides (pipeline c true pipe) s (AllMet c (pipe.demands c)) fun _ s' =>
      State.Ready c { s' with noPrint := false } := by
    rcases (Bool.or_eq_true _ _).mp hwf with hhook | hwf
    · refine (decides_hook_pipeline hhook hs).iff ?_
      rw [demands_of_isHook hhook, allMet_nil]
    · refine (decides_pipeline pipe s (Pipeline.noHooks_of_wellFormed pipe hwf) hs).mono fun _ _ h => ?_
      exact ⟨h.ready.keyed, h.ready.registered, rfl⟩
  refine hpipe.finish fun g s₁ hs₁ => ?_
  have hsettle (g : Fragment) : Decides (settle c pos f g s₁.tables) { s₁ with noPrint := false } True
      (EndsReady c) := by
    unfold settle
    split
    · split
      · exact decides_pure hs₁
      · exact decides_pushBytes _ hs₁
    · exact (decides_balanced hs₁).andThen fun _ _ h => decides_pure h
  exact hsettle _

/-- Calling a template that is there fails only because of the code. -/
theorem decides_templateBehind (target : String) (hs : s.Ready c) :
    Decides (templateBehind c pos f target g) s True (EndsReady c) := by
  refine (decides_balanced hs).andThen fun b s₁ hs₁ => ?_
  have hnamespace : Decides (callNamespace c pos target) s₁ True (EndsReady c) := by
    refine (decides_intern _).andThen fun ns s₂ hns => ?_
    split
    · exact decides_pure (hns.1.ready hs₁)
    · exact decides_fail (.inl rfl)
  refine hnamespace.andThen fun ns s₂ hs₂ => ?_
  exact (decides_intern target).andThen fun index s₃ hindex => decides_pure (hindex.1.ready hs₂)

/-- A template call is decided by the set, and by the demands of its pipeline. -/
theorem decides_templateCall {name : String} : ∀ {pipe : Option Pipeline},
    (Node.template pos name pipe).wellFormed → s.Ready c →
    Decides (templateCall c pos f name pipe) s (AllMet c (Node.demands c (.template pos name pipe)))
      (EndsReady c) := by
  intro pipe hwf hs
  by_cases hcontains : c.set.contains name = true
  · rw [templateCall_of_contains hcontains]
    have hmet : AllMet c [.template name] ↔ True := by
      rw [allMet_singleton]
      exact iff_true_intro hcontains
    cases pipe with
    | none =>
      refine Decides.iff ?_ hmet.symm
      have hempty : Denotes s.tables Fragment.empty.instrs [] := denotes_nil s.tables
      refine (decides_pushValue hs hempty .nil).andThen fun g s₁ hg => ?_
      exact decides_templateBehind name hg.ready
    | some pipe =>
      have hdemands : AllMet c (Node.demands c (.template pos name (some pipe))) ↔
          AllMet c (pipe.demands c) := by
        have hboth : AllMet c ([.template name] ++ pipe.demands c) ↔
            AllMet c [.template name] ∧ AllMet c (pipe.demands c) := allMet_append
        rwa [hmet, true_and] at hboth
      refine Decides.iff ?_ hdemands.symm
      refine (decides_pipeline pipe s (Pipeline.noHooks_of_wellFormed pipe hwf) hs).finish fun g s₁ hg => ?_
      exact decides_templateBehind name hg.ready
  · rw [templateCall_of_not_contains hcontains]
    have hunmet : ¬AllMet c (Node.demands c (.template pos name pipe)) := by
      intro hall
      refine hcontains (hall (.template name) ?_)
      cases pipe <;> exact List.mem_cons_self
    exact .inr hunmet

/-- Interning names of variables fails only because of full tables. -/
theorem decides_internAll (decl : List Variable) (hs : s.Ready c) :
    Decides (internAll c decl) s True (EndsReady c) := by
  induction decl generalizing s with
  | nil => exact decides_pure hs
  | cons v rest ih =>
    refine (decides_intern v.name).andThen fun name s₁ hname => ?_
    exact (ih (hname.1.ready hs)).andThen fun names s₂ hs₂ => decides_pure hs₂

/-- A body is decided in its scope. -/
theorem decides_inScope {x : M Fragment} (hs : s.Ready c)
    (h : ∀ s : State, s.Ready c → Decides x s P (EndsReady c)) :
    Decides (inScope x) s P (EndsReady c) := by
  have hscope : inScope x s = (x { s with declared := [] }).bind fun r =>
      .ok (unsetAll r.1 r.2.declared, { r.2 with declared := s.declared }) := rfl
  have hx := h { s with declared := [] } ⟨hs.keyed, hs.registered, hs.noPrint⟩
  unfold Decides at hx ⊢
  rw [hscope]
  cases hrun : x { s with declared := [] } with
  | error e =>
    rw [hrun] at hx
    exact hx
  | ok r =>
    rw [hrun] at hx
    exact ⟨hx.1, hx.2.keyed, hx.2.registered, hx.2.noPrint⟩

mutual

/-- A well-formed node is compiled if its demands are met, and only then. -/
theorem decides_node : ∀ (n : Node) (f : Fragment) (s : State), n.wellFormed → s.Ready c →
    Decides (node c f n) s (AllMet c (n.demands c)) (EndsReady c)
  | .list ⟨pos, ns⟩, f, s, hwf, hs =>
    (decides_nodes ns f s hwf hs).finish fun _ _ h => decides_pure h
  | .text pos str, f, s, _, hs => by
    refine Decides.iff ?_ allMet_nil.symm
    exact (decides_text str hs).finish fun _ _ h => decides_pure h
  | .action pos pipe, f, s, hwf, hs => (decides_action hwf hs).finish fun _ _ h => decides_pure h
  | .comment pos str, f, s, _, hs => (decides_pure hs).iff allMet_nil.symm
  | .branch kind pos pipe ⟨bodyPos, ns⟩ orElse, f, s, hwf, hs => by
    simp only [Node.wellFormed, Bool.and_eq_true] at hwf
    have hbody (s : State) (hs : s.Ready c) :
        Decides (do return (← nodes c .empty ns).mark bodyPos) s (AllMet c (Node.allDemands c ns))
          (EndsReady c) :=
      (decides_nodes ns .empty s hwf.1.2 hs).finish fun _ _ h => decides_pure h
    unfold Node.demands
    refine Decides.iff ?_ (allMet_append.trans (and_congr_right fun _ => allMet_append)).symm
    refine (decides_condition pipe s (Pipeline.noHooks_of_wellFormed pipe hwf.1.1) hs).bind
      fun condition s₁ hs₁ => ?_
    refine (decides_inScope hs₁ hbody).bind fun body s₂ hs₂ => ?_
    refine (decides_alternative orElse s₂ hwf.2 hs₂).finish fun other s₃ hs₃ => ?_
    refine (decides_balanced hs₃).andThen fun b s₄ hs₄ => ?_
    obtain ⟨held, pop⟩ := b.takePop
    refine (decides_internAll pipe.decl hs₄).andThen fun decl s₅ hs₅ => ?_
    simp only
    split
    · exact decides_pure hs₅
    · exact decides_fail (.inl rfl)
  | .template pos name pipe, f, s, hwf, hs =>
    (decides_templateCall hwf hs).finish fun _ _ h => decides_pure h
  | .breakLoop pos, f, s, _, _ => decides_fail (.inr fun hall => hall .loopControl List.mem_cons_self)
  | .continueLoop pos, f, s, _, _ =>
    decides_fail (.inr fun hall => hall .loopControl List.mem_cons_self)

/-- Nodes are compiled exactly if their demands are met. -/
theorem decides_nodes : ∀ (ns : List Node) (f : Fragment) (s : State), Node.allWellFormed ns →
    s.Ready c → Decides (nodes c f ns) s (AllMet c (Node.allDemands c ns)) (EndsReady c)
  | [], f, s, _, hs => (decides_pure hs).iff allMet_nil.symm
  | n :: rest, f, s, hwf, hs => by
    simp only [Node.allWellFormed, Bool.and_eq_true] at hwf
    refine ((decides_node n f s hwf.1 hs).bind fun g s₁ hs₁ => ?_).iff allMet_append.symm
    exact decides_nodes rest g s₁ hwf.2 hs₁

/-- An alternative is compiled exactly if its demands are met. -/
theorem decides_alternative : ∀ (orElse : Option (Block Node)) (s : State), Node.elseWellFormed orElse →
    s.Ready c → Decides (alternative c orElse) s (AllMet c (Node.elseDemands c orElse))
      (EndsReady c)
  | none, s, _, hs => (decides_pure hs).iff allMet_nil.symm
  | some ⟨pos, ns⟩, s, hwf, hs => by
    have hbody (s : State) (hs : s.Ready c) :
        Decides (do return (← nodes c .empty ns).mark pos) s (AllMet c (Node.allDemands c ns))
          (EndsReady c) :=
      (decides_nodes ns .empty s hwf hs).finish fun _ _ h => decides_pure h
    exact (decides_inScope hs hbody).finish fun _ _ h => decides_pure h

end

/-! ### What sets demand -/

/-- A template is compiled exactly if the demands of its nodes are met. -/
theorem decides_template {tree : Tree} (hwf : Node.allWellFormed tree.root.nodes)
    (hkeyed : c.registry.IsKeyed) (ht : s.tables.Registered c.registry) :
    Decides (template c tree) s (AllMet c (Node.allDemands c tree.root.nodes)) (EndsReady c) := by
  have hstart : State.Ready c { s with noPrint := false, declared := [] } := ⟨hkeyed, ht, rfl⟩
  refine decides_modify_bind ?_
  exact (decides_nodes tree.root.nodes .empty _ hwf hstart).finish fun _ _ h => decides_pure h

variable {schema : Schema} {registry : Registry} {options : CompileOptions} {set : TemplateSet}

/-- The demands of templates of a set. -/
def demandsOf (set : TemplateSet) (registry : Registry) (options : CompileOptions) (schema : Schema)
    (entries : List (String × Tree)) : List Demand :=
  entries.flatMap fun entry =>
    Node.allDemands ⟨set, registry, options, schema, entry.1, entry.2.source⟩ entry.2.root.nodes

/-- Whether compilation has failed if something does not hold, and otherwise only because of the code. -/
def Answers {α : Type} (P : Prop) : Except CompileError α → Prop
  | .ok _ => P
  | .error e => e.kind.isOfCode ∨ ¬P

/-- Templates are compiled if their demands are met, and only then. -/
theorem answers_addTemplates {entries : List (String × Tree)} {p : Program}
    (hwf : ∀ entry ∈ entries, Node.allWellFormed entry.2.root.nodes) (hkeyed : registry.IsKeyed)
    (hp : p.tables.Registered registry) :
    Answers (∀ d ∈ demandsOf set registry options p.schema entries, d.IsMet registry set)
      (addTemplates set registry options p entries) := by
  induction entries generalizing p with
  | nil => exact List.forall_mem_nil _
  | cons entry rest ih =>
    obtain ⟨name, tree⟩ := entry
    rw [List.forall_mem_cons] at hwf
    have htemplate := decides_template (c := ⟨set, registry, options, p.schema, name, tree.source⟩)
      (s := ⟨p.tables, false, []⟩) hwf.1 hkeyed hp
    have hsplit : (∀ d ∈ demandsOf set registry options p.schema ((name, tree) :: rest),
        d.IsMet registry set) ↔
          AllMet ⟨set, registry, options, p.schema, name, tree.source⟩
            (Node.allDemands ⟨set, registry, options, p.schema, name, tree.source⟩ tree.root.nodes) ∧
          ∀ d ∈ demandsOf set registry options p.schema rest, d.IsMet registry set := by
      rw [demandsOf, List.flatMap_cons]
      exact List.forall_mem_append
    rw [addTemplates_cons, hsplit]
    cases hrun : template ⟨set, registry, options, p.schema, name, tree.source⟩ tree
        ⟨p.tables, false, []⟩ with
    | error e => exact (htemplate.of_error hrun).imp_right fun hfirst hboth => hfirst hboth.1
    | ok r =>
      obtain ⟨hfirst, hready⟩ := htemplate.of_ok hrun
      have hrest := ih (p := { p with tables := r.2.tables, templates := p.templates.insert name r.1 })
        hwf.2 hready.registered
      rw [Except.bind]
      cases hadd : addTemplates set registry options
          { p with tables := r.2.tables, templates := p.templates.insert name r.1 } rest with
      | error e =>
        rw [hadd] at hrest
        exact hrest.imp_right fun hrest hboth => hrest hboth.2
      | ok q =>
        rw [hadd] at hrest
        exact ⟨hfirst, hrest⟩

/-- A well-formed set that fits is compiled if its demands are met, and only then. -/
theorem exists_compile_iff (hwf : set.wellFormed) (hkeyed : registry.IsKeyed)
    (hfits : ∀ e, compile schema registry options set = .error e → ∀ table, e.kind ≠ .tableOverflow table) :
    (∃ p, compile schema registry options set = .ok p) ↔
      ∀ d ∈ demandsOf set registry options schema set.toList, d.IsMet registry set := by
  have hdecides : Answers (∀ d ∈ demandsOf set registry options schema set.toList, d.IsMet registry set)
      (addTemplates set registry options ⟨schema, .initial, .empty, set.root⟩ set.toList) :=
    answers_addTemplates (fun entry hmem => wellFormed_of_mem hwf hmem) hkeyed
      (Tables.registered_initial registry)
  cases hadd : addTemplates set registry options ⟨schema, .initial, .empty, set.root⟩ set.toList with
  | ok q =>
    rw [hadd] at hdecides
    have hcompile : compile schema registry options set =
        .ok (if options.stitch then q.stitch else q) := by
      simp only [compile, hadd]
      rfl
    exact ⟨fun _ => hdecides, fun _ => ⟨_, hcompile⟩⟩
  | error e =>
    rw [hadd] at hdecides
    have hcompile : compile schema registry options set = .error e := by
      simp only [compile, hadd]
      rfl
    have hkind : ¬e.kind.isOfCode := by
      intro hcode
      cases hkind : e.kind with
      | tableOverflow table => exact hfits e hcompile table hkind
      | unbalanced effect => exact compile_balanced hwf hcompile effect hkind
      | _ =>
        rw [hkind] at hcode
        cases hcode
    constructor
    · rintro ⟨p, hp⟩
      rw [hcompile] at hp
      cases hp
    · exact fun hall => absurd hall (hdecides.resolve_left hkind)

end Compile
end Stencil
