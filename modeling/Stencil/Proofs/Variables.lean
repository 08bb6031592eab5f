import Stencil.Proofs.Pipelines

/-!
# The variables of pipelines

Which variables evaluating a pipeline binds, and in which order: those of the pipelines in its
parentheses as they are evaluated, and its own ones last. The code of the pipeline binds the same
variables in the same order. This is so for all pipelines, whether they leave values or not.
-/

namespace Stencil

/-- A variable that is bound, and whether it is assigned rather than declared. -/
structure Binding where
  variable_ : Variable
  assign : Bool

mutual

/-- The variables that evaluating an operand binds. -/
def Operand.bindings : Operand → List Binding
  | .chain _ inner _ => inner.bindings
  | .paren p => p.bindings
  | _ => []

/-- The variables that evaluating operands binds; the last operand is evaluated first. -/
def Operand.allBindings : List Operand → List Binding
  | [] => []
  | a :: rest => Operand.allBindings rest ++ a.bindings

/-- The variables that evaluating a command binds. -/
def Command.bindings : Command → List Binding
  | .mk _ operands => Operand.allBindings operands

/-- The variables that evaluating commands binds. -/
def Command.allBindings : List Command → List Binding
  | [] => []
  | cmd :: rest => cmd.bindings ++ Command.allBindings rest

/-- The variables that evaluating a pipeline binds, its own ones included. -/
def Pipeline.bindings : Pipeline → List Binding
  | .mk _ assign decl commands =>
    Command.allBindings commands ++ decl.map fun v => ⟨v, assign⟩

end

/-- The variables that the pipelines in the parentheses of a pipeline bind. -/
def Pipeline.innerBindings (p : Pipeline) : List Binding := Command.allBindings p.commands

/-- The names of the variables that are declared and not assigned. -/
def declaredNames (bindings : List Binding) : List String :=
  (bindings.filter fun b => !b.assign).map fun b => b.variable_.name

/-- The index that a variable is bound to by, and whether it is assigned. -/
def Instr.binding? : Instr → Option (Nat × Bool)
  | .setVar name assign => some (name, assign)
  | _ => none

/-- Whether code binds the given variables in their order. -/
def Binds (t : Tables) (code : List Instr) (bindings : List Binding) : Prop :=
  (code.filterMap Instr.binding?).map (fun b => (t.strings[b.1]?, b.2)) =
    bindings.map fun b => (some b.variable_.name, b.assign)

section

variable {t t' : Tables} {code rest : List Instr} {bindings more : List Binding}

/-- No code binds no variables. -/
theorem binds_nil (t : Tables) : Binds t [] [] := rfl

/-- Code binds its variables behind those of the code in front of it. -/
theorem Binds.append (h : Binds t code bindings) (h' : Binds t rest more) :
    Binds t (code ++ rest) (bindings ++ more) := by
  unfold Binds at h h' ⊢
  rw [List.filterMap_append, List.map_append, List.map_append, h, h']

/-- Variables keep their names when the tables grow. -/
theorem Binds.mono (h : Binds t code bindings) (hextends : t.Extends t') : Binds t' code bindings := by
  unfold Binds at h ⊢
  rw [← h]
  apply List.map_congr_left
  intro b hb
  have hname : (t.strings[b.1]?, b.2) ∈ bindings.map fun b => (some b.variable_.name, b.assign) := by
    rw [← h]
    exact List.mem_map_of_mem hb
  obtain ⟨b', -, hb'⟩ := List.mem_map.mp hname
  obtain ⟨hstring, -⟩ := Prod.mk.inj hb'
  rw [← hstring, hextends.strings _ _ hstring.symm]

/-- An instruction that binds nothing binds no variables. -/
theorem binds_of_binding? {i : Instr} (hi : i.binding? = none) : Binds t [i] [] := by
  simp [Binds, hi]

/-- An instruction that binds a variable binds one of the given ones. -/
theorem Binds.exists_of_mem (h : Binds t code bindings) {name : Nat} {assign : Bool}
    (hmem : .setVar name assign ∈ code) :
    ∃ b ∈ bindings, t.strings[name]? = some b.variable_.name ∧ b.assign = assign := by
  have hcode : (name, assign) ∈ code.filterMap Instr.binding? :=
    List.mem_filterMap.mpr ⟨_, hmem, rfl⟩
  have hpair : (t.strings[name]?, assign) ∈ bindings.map fun b => (some b.variable_.name, b.assign) := by
    rw [← h]
    exact List.mem_map.mpr ⟨_, hcode, rfl⟩
  obtain ⟨b, hb, heq⟩ := List.mem_map.mp hpair
  obtain ⟨hname, hassign⟩ := Prod.mk.inj heq
  exact ⟨b, hb, hname.symm, hassign⟩

/-- The declared variables are those of the bindings that are no assignments. -/
theorem reverse_declaredBy (code : List Instr) :
    (declaredBy code).reverse =
      ((code.filterMap Instr.binding?).filter fun b => !b.2).map Prod.fst := by
  induction code with
  | nil => rfl
  | cons i code ih =>
    rw [declaredBy_cons, List.reverse_append, ih]
    cases i with
    | setVar name assign => cases assign <;> rfl
    | _ => rfl

/-- The variables that code declares are those that are not assigned, the last one first. -/
theorem Binds.names_declaredBy (h : Binds t code bindings) :
    (declaredBy code).reverse.map (t.strings[·]?) = (declaredNames bindings).map some := by
  have hfilter := congrArg (fun names => (names.filter fun b => !b.2).map Prod.fst) h
  simp only [List.filter_map, List.map_map] at hfilter
  rw [reverse_declaredBy, List.map_map, declaredNames, List.map_map]
  exact hfilter

end

namespace Compile

variable {c : Context} {pos : Pos} {s s' s'' : State} {f f' f'' g : Fragment}

/-! ### Steps that succeed -/

/-- Whether a step of compilation ends as told unless it fails. -/
def Yields {α : Type} (x : M α) (s : State) (Q : α → State → Prop) : Prop :=
  ∀ a s', x s = .ok (a, s') → Q a s'

section

variable {α β : Type} {x : M α} {Q R : α → State → Prop}

/-- What a step ensures it yields. -/
theorem Ensures.yields (h : Ensures x s Q) : Yields x s Q := fun _ _ hrun => h.of_ok hrun

/-- A step yields what it has given. -/
theorem yields_self (x : M α) : Yields x s fun a s' => x s = .ok (a, s') := fun _ _ hrun => hrun

/-- What a step yields is known together with what it has given. -/
theorem Yields.and_self (h : Yields x s Q) : Yields x s fun a s' => x s = .ok (a, s') ∧ Q a s' :=
  fun a s' hrun => ⟨hrun, h a s' hrun⟩

/-- What is told of the end of a step may be weakened, even if it may fail. -/
theorem Yields.mono (h : Yields x s Q) (hQ : ∀ a s', Q a s' → R a s') : Yields x s R :=
  fun a s' hrun => hQ a s' (h a s' hrun)

/-- What a step yields may be used for the step after it. -/
theorem Yields.bind {next : α → M β} {R : β → State → Prop} (h : Yields x s Q)
    (hnext : ∀ a s', Q a s' → Yields (next a) s' R) : Yields (x >>= next) s R := by
  intro b s' hrun
  obtain ⟨a, s₁, hx, hrest⟩ := bind_eq_ok.mp hrun
  exact hnext a s₁ (h a s₁ hx) b s' hrest

/-- A step that does nothing yields what it has been given. -/
theorem yields_pure {a : α} (h : Q a s) : Yields (pure a) s Q := by
  intro a' s' hrun
  cases hrun
  exact h

/-- A step that fails yields everything. -/
theorem yields_fail {kind : CompileErrorKind} : Yields (fail c pos kind) s Q := by
  intro a s' hrun
  cases hrun

/-- A step that looks at the state yields what follows at that state. -/
theorem yields_get_bind {next : State → M α} (h : Yields (next s) s Q) : Yields (get >>= next) s Q := h

/-- A step that replaces the state yields what follows at the new one. -/
theorem yields_set_bind {next : PUnit → M α} (h : Yields (next ⟨⟩) s' Q) :
    Yields (set s' >>= next) s Q := h

/-- A step that changes the state yields what follows at the changed one. -/
theorem yields_modify_bind {change : State → State} {next : PUnit → M α}
    (h : Yields (next ⟨⟩) (change s) Q) : Yields (modify change >>= next) s Q := h

end

/-! ### The variables that are bound -/

/-- Whether code that binds the given variables has been added to a fragment. -/
def AddsBindings (bindings : List Binding) (f : Fragment) (s : State) (f' : Fragment) (s' : State) :
    Prop :=
  ∃ code, f'.instrs = f.instrs ++ code ∧ s.tables.Extends s'.tables ∧
    (s.tables.Sound → s'.tables.Sound ∧ Binds s'.tables code bindings)

variable {bindings more : List Binding}

/-- Nothing that is added binds nothing. -/
theorem addsBindings_refl (f : Fragment) (s : State) : AddsBindings [] f s f s :=
  ⟨[], by simp, .refl _, fun hs => ⟨hs, binds_nil _⟩⟩

/-- What is added in two steps binds the variables of both. -/
theorem AddsBindings.trans (h : AddsBindings bindings f s f' s') (h' : AddsBindings more f' s' f'' s'') :
    AddsBindings (bindings ++ more) f s f'' s'' := by
  obtain ⟨code, hcode, hextends, hbinds⟩ := h
  obtain ⟨rest, hrest, hextends', hbinds'⟩ := h'
  refine ⟨code ++ rest, by rw [hrest, hcode, List.append_assoc], hextends.trans hextends', fun hs => ?_⟩
  obtain ⟨hs', hfirst⟩ := hbinds hs
  obtain ⟨hs'', hsecond⟩ := hbinds' hs'
  exact ⟨hs'', (hfirst.mono hextends').append hsecond⟩

/-- An instruction that binds nothing is added after the tables have grown for it. -/
theorem Grows.addsInstr (h : Grows s s') (f : Fragment) {i : Instr} (hi : i.binding? = none) :
    AddsBindings [] f s (f.push i) s' :=
  ⟨[i], Fragment.instrs_push f i, h.extends_, fun hs => ⟨h.sound hs, binds_of_binding? hi⟩⟩

/-- Code compiled on its own is added as a whole. -/
theorem AddsBindings.append (h : AddsBindings bindings .empty s g s') (f : Fragment) :
    AddsBindings bindings f s (f.append g) s' := by
  obtain ⟨code, hcode, hrest⟩ := h
  refine ⟨code, ?_, hrest⟩
  rw [Fragment.instrs_append, hcode]
  rfl

/-- Pushing a value binds nothing. -/
theorem yields_pushValue (f : Fragment) (v : Value) :
    Yields (pushValue c pos f v) s (AddsBindings [] f s) :=
  (ensures_pushValue f v).yields.mono fun _ _ hg => by
    obtain ⟨index, rfl, hgrows, -⟩ := hg
    exact hgrows.addsInstr f rfl

/-- Looking up fields binds nothing. -/
theorem yields_fields (argc : Nat) (path : List String) :
    Yields (fields c pos argc f path) s (AddsBindings [] f s) := by
  induction path generalizing f s with
  | nil => exact yields_pure (addsBindings_refl f s)
  | cons name rest ih =>
    refine .bind (ensures_intern name).yields fun index s₁ hindex => ?_
    exact (ih).mono fun g s₂ hrest => (hindex.1.addsInstr f rfl).trans hrest

/-- An identifier binds nothing. -/
theorem yields_identifier (argc : Nat) (name : String) :
    Yields (identifier c pos argc f name) s (AddsBindings [] f s) := by
  cases hhook : assetBytes? c.set name with
  | some bytes =>
    unfold identifier
    rw [hhook]
    simp only
    split
    · intro g s' hrun
      cases hrun
      exact addsBindings_refl f s
    · refine .bind (ensures_pushBytes f bytes).yields fun g s₁ hg => ?_
      obtain ⟨index, rfl, hgrows, -⟩ := hg
      have hadds : AddsBindings [] f s (f.push (.wb index)) { s₁ with noPrint := true } :=
        hgrows.addsInstr f rfl
      exact yields_modify_bind (yields_pure hadds)
  | none =>
    unfold identifier
    rw [hhook]
    apply yields_get_bind
    cases resolve c.options s.noPrint (knownOperand s.tables argc f) name with
    | none => exact yields_pure (addsBindings_refl f s)
    | some name' =>
      simp only
      split
      · exact yields_fail
      · next function _ =>
        exact .bind (ensures_addFunc function).yields fun index s₁ hindex =>
          yields_pure (hindex.1.addsInstr f rfl)

/-- Folded code binds nothing, and constant code does not either. -/
theorem yields_fold {body : Fragment} {s₀ : State} (hbody : AddsBindings bindings .empty s₀ body s) :
    Yields (fold c pos body) s (AddsBindings bindings .empty s₀) := by
  refine (ensures_fold body).yields.mono fun g s' hfold => ?_
  rcases hfold with ⟨rfl, rfl⟩ | ⟨hgrows, hconstant, values, indices, -, hcode, -⟩
  · exact hbody
  · obtain ⟨code, hbodycode, hextends, hbinds⟩ := hbody
    have hbodycode : body.instrs = code := hbodycode
    have hquiet : code.filterMap Instr.binding? = [] := by
      rw [← hbodycode, List.filterMap_eq_nil_iff]
      intro i hi
      have hi := hconstant i hi
      cases i <;> first | rfl | cases hi
    have hvals : g.instrs.filterMap Instr.binding? = [] := by
      rw [hcode, List.filterMap_eq_nil_iff]
      intro i hi
      obtain ⟨index, -, rfl⟩ := List.mem_map.mp hi
      rfl
    refine ⟨g.instrs, rfl, hextends.trans hgrows.extends_, fun hs => ?_⟩
    obtain ⟨hs', hbinds⟩ := hbinds hs
    refine ⟨hgrows.sound hs', ?_⟩
    unfold Binds at hbinds ⊢
    rw [hvals, ← hbinds, hquiet]
    rfl

/-- Binding the value of a pipeline binds its variables in order. -/
theorem yields_bindAll (assign : Bool) (decl : List Variable) :
    Yields (bindAll c assign f decl) s (AddsBindings (decl.map fun v => ⟨v, assign⟩) f s) := by
  induction decl generalizing f s with
  | nil => exact yields_pure (addsBindings_refl f s)
  | cons v rest ih =>
    refine .bind (ensures_intern v.name).yields fun name s₁ hname => ?_
    obtain ⟨hgrows, hentry⟩ := hname
    have hset (declared : List Nat) : AddsBindings [⟨v, assign⟩] f s (f.push (.setVar name assign))
        { s₁ with declared := declared } := by
      refine ⟨[.setVar name assign], Fragment.instrs_push f _, hgrows.extends_, fun hs => ?_⟩
      have hs₁ := hgrows.sound hs
      exact ⟨hs₁, by simp [Binds, Instr.binding?, hentry hs₁]⟩
    cases assign with
    | true => exact (ih).mono fun g s₂ hrest => (hset s₁.declared).trans hrest
    | false =>
      have hrest : Yields (bindAll c false (f.push (.setVar name false)) rest)
          { s₁ with declared := name :: s₁.declared } _ := ih
      exact hrest.mono fun g s₂ hadds => (hset _).trans hadds

mutual

/-- The code of an operand binds what evaluating the operand binds. -/
theorem yields_operand (argc : Nat) : ∀ (a : Operand) (f : Fragment) (s : State),
    Yields (operand c argc f a) s (AddsBindings a.bindings f s)
  | .bool pos b, f, s | .nil pos, f, s =>
    .bind (yields_pushValue f _) fun _ _ hadds => yields_pure hadds
  | .number n, f, s => by
    unfold operand
    split
    · exact .bind (yields_pushValue f _) fun _ _ hadds => yields_pure hadds
    · exact yields_fail
  | .string pos str, f, s =>
    .bind (ensures_intern str).yields fun _ _ hindex => yields_pure (hindex.1.addsInstr f rfl)
  | .dot pos, f, s => yields_pure ((Grows.refl s).addsInstr f rfl)
  | .field pos path, f, s =>
    .bind (yields_fields argc path) fun _ _ hadds =>
      yields_pure (((Grows.refl s).addsInstr f rfl).trans hadds)
  | .chain pos inner path, f, s => by
    refine .bind (yields_operand 0 inner f s) fun g s₁ hinner => ?_
    refine .bind (yields_fields argc path) fun g' s₂ hadds => yields_pure ?_
    have hboth := hinner.trans hadds
    rwa [List.append_nil] at hboth
  | .var v, f, s => by
    refine .bind (ensures_intern v.name).yields fun name s₁ hname => ?_
    exact .bind (yields_fields argc v.fields) fun g s₂ hadds =>
      yields_pure ((hname.1.addsInstr f rfl).trans hadds)
  | .ident pos name, f, s =>
    .bind (yields_identifier argc name) fun _ _ hadds => yields_pure hadds
  | .paren p, f, s => by
    refine .bind (yields_pipeline p s) fun g s₁ hpipe => ?_
    have hadds := hpipe.append f
    split
    · next v _ =>
      refine .bind (ensures_intern v.name).yields fun name s₂ hname => yields_pure ?_
      have hboth := hadds.trans (hname.1.addsInstr (f.append g) (i := .var name) rfl)
      rwa [List.append_nil] at hboth
    · exact yields_pure hadds

/-- The code of operands binds what evaluating the operands binds. -/
theorem yields_operands (argc : Nat) : ∀ (args : List Operand) (f : Fragment) (s : State),
    Yields (operands c argc f args) s (AddsBindings (Operand.allBindings args) f s)
  | [], f, s => yields_pure (addsBindings_refl f s)
  | a :: rest, f, s =>
    .bind (yields_operands 0 rest f s) fun g s₁ hrest =>
      (yields_operand argc a g s₁).mono fun _ _ ha => hrest.trans ha

/-- A command binds the variables in its operands. -/
theorem yields_command (chained : Bool) : ∀ (cmd : Command) (f : Fragment) (s : State),
    Yields (command c chained f cmd) s (AddsBindings cmd.bindings f s)
  | .mk _ args, f, s => by
    unfold command
    simp only
    split
    · exact .bind (yields_operands _ args f s) fun _ _ hadds => yields_pure hadds
    · exact yields_fail

/-- The code of commands binds what evaluating the commands binds. -/
theorem yields_commands (chained : Bool) : ∀ (cmds : List Command) (f : Fragment) (s : State),
    Yields (commands c chained f cmds) s (AddsBindings (Command.allBindings cmds) f s)
  | [], f, s => yields_pure (addsBindings_refl f s)
  | cmd :: rest, f, s =>
    .bind (yields_command chained cmd f s) fun g s₁ hcmd =>
      (yields_commands true rest g s₁).mono fun _ _ hrest => hcmd.trans hrest

/-- The code of a pipeline binds what evaluating the pipeline binds. -/
theorem yields_pipeline : ∀ (pipe : Pipeline) (s : State),
    Yields (pipeline c true pipe) s (AddsBindings pipe.bindings .empty s)
  | .mk _ assign decl cmds, s =>
    .bind (yields_commands false cmds .empty s) fun _ _ hbody =>
      .bind (yields_fold hbody) fun _ _ hfold =>
        .bind (yields_bindAll assign decl) fun _ _ hbind => yields_pure (hfold.trans hbind)

end

/-- The code of the condition of a branch binds the variables in its parentheses. -/
theorem yields_condition (pipe : Pipeline) (s : State) :
    Yields (pipeline c false pipe) s (AddsBindings pipe.innerBindings .empty s) := by
  obtain ⟨pos, assign, decl, cmds⟩ := pipe
  exact .bind (yields_commands false cmds .empty s) fun _ _ hbody =>
    .bind (yields_fold hbody) fun _ _ hfold => yields_pure hfold

end Compile
end Stencil
