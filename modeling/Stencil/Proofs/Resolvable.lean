import Stencil.Proofs.Acceptance
import Stencil.Proofs.Folding

/-!
# Resolvable sets

The demands of a set, told from the nodes that occur in it: there is no `break` or `continue`, the
targets of calls and the functions that are looked up are there, and numbers have values. A name that is
no escaper is always looked up. An escaper is not if it is left out, and the one for HTML may stand for
the one for HTML strings.
-/

namespace Stencil

/-- Whether a name is neither that of an asset hook nor that of an escaper. -/
def Compile.IsPlain (name : String) : Prop := isHook name = false ∧ isEscaper name = false

open Compile (IsPlain)

variable {c : Compile.Context} {d : Demand} {name : String}

/-- Whether a node leaves or goes on with a loop. -/
def Node.isLoopControl : Node → Bool
  | .breakLoop _ | .continueLoop _ => true
  | _ => false

/-- Whether a pipeline with these names of functions can have a demand. The escaper for HTML is the only
name that another one is looked up for. -/
def Demand.ArisesFrom (names : List String) : Demand → Prop
  | function name =>
    name ∈ names ∧ Compile.isHook name = false ∨ name = Builtin.htmlStringEscaperName
  | number _ => True
  | template _ | loopControl => False

/-- A demand that arises from names arises from more names. -/
theorem Demand.ArisesFrom.mono {names names' : List String} (h : d.ArisesFrom names)
    (hsubset : names ⊆ names') : d.ArisesFrom names' := by
  cases d with
  | function name => exact h.imp_left fun hname => ⟨hsubset hname.1, hname.2⟩
  | _ => exact h

/-! ### Pipelines -/

/-- What is looked up for a name is the name itself or the escaper for HTML strings. -/
theorem Compile.eq_of_lookedUp? {argc : Nat} {front : List Symbol} {known : String}
    (h : lookedUp? c argc front name = some known) :
    (known = name ∧ isHook name = false) ∨ known = Builtin.htmlStringEscaperName := by
  unfold lookedUp? at h
  split at h
  · cases h
  · next hhook =>
    have hresolve : known = name ∨ known = Builtin.htmlStringEscaperName := by
      unfold resolve resolveEscaper at h
      grind
    exact hresolve.imp_left fun hknown => ⟨hknown, by simpa using hhook⟩

mutual

/-- The demands of an operand arise from its names. -/
theorem Operand.arises_of_mem : ∀ (a : Operand) (argc : Nat) (front : List Symbol),
    d ∈ a.demands c argc front → d.ArisesFrom a.names
  | .number n, _, _, h => by
    cases List.mem_singleton.mp h
    trivial
  | .ident _ name, argc, front, h => by
    obtain ⟨known, hknown, rfl⟩ := Option.map_eq_some_iff.mp (Option.mem_toList.mp h)
    refine (Compile.eq_of_lookedUp? hknown).imp_left fun hname => ?_
    rw [hname.1]
    exact ⟨List.mem_singleton_self name, hname.2⟩
  | .chain _ inner _, _, front, h => Operand.arises_of_mem inner 0 front h
  | .paren p, _, _, h => Pipeline.arises_of_mem p h
  | .bool .., _, _, h | .string .., _, _, h | .nil _, _, _, h | .dot _, _, _, h | .field .., _, _, h
  | .var _, _, _, h => nomatch h

/-- The demands of operands arise from their names. -/
theorem Operand.arises_of_mem_all : ∀ (args : List Operand) (argc : Nat) (front : List Symbol),
    d ∈ Operand.allDemands c argc front args → d.ArisesFrom (Operand.allNames args)
  | [], _, _, h => nomatch h
  | a :: rest, argc, front, h => by
    rcases List.mem_append.mp h with hrest | hhead
    · exact (Operand.arises_of_mem_all rest 0 front hrest).mono (List.subset_append_right _ _)
    · exact (Operand.arises_of_mem a argc _ hhead).mono (List.subset_append_left _ _)

/-- The demands of a command arise from its names. -/
theorem Command.arises_of_mem : ∀ (cmd : Command) (chained : Bool) (front : List Symbol),
    d ∈ cmd.demands c chained front → d.ArisesFrom cmd.names
  | .mk _ args, _, front, h => Operand.arises_of_mem_all args _ front h

/-- The demands of a chain of commands arise from their names. -/
theorem Command.arises_of_mem_all : ∀ (cmds : List Command) (chained : Bool) (front : List Symbol),
    d ∈ Command.allDemands c chained front cmds → d.ArisesFrom (Command.allNames cmds)
  | [], _, _, h => nomatch h
  | cmd :: rest, chained, front, h => by
    rcases List.mem_append.mp h with hhead | hrest
    · exact (Command.arises_of_mem cmd chained front hhead).mono (List.subset_append_left _ _)
    · exact (Command.arises_of_mem_all rest true _ hrest).mono (List.subset_append_right _ _)

/-- A pipeline demands functions that it names and values of numbers. -/
theorem Pipeline.arises_of_mem : ∀ pipe : Pipeline, d ∈ pipe.demands c → d.ArisesFrom pipe.names
  | .mk _ _ _ cmds, h => Command.arises_of_mem_all cmds false [] h

end

/-- A name that is neither that of an asset hook nor that of an escaper is looked up as it is. -/
theorem Compile.IsPlain.lookedUp?_eq {argc : Nat} {front : List Symbol} (h : IsPlain name) :
    lookedUp? c argc front name = some name := by
  rw [lookedUp?, h.1, if_neg Bool.false_ne_true, resolve, h.2, if_neg Bool.false_ne_true]

mutual

/-- A name in an operand that is no escaper is demanded. -/
theorem Operand.function_mem_demands (hname : IsPlain name) :
    ∀ (a : Operand) (argc : Nat) (front : List Symbol),
    name ∈ a.names → Demand.function name ∈ a.demands c argc front
  | .ident _ _, argc, front, h => by
    cases List.mem_singleton.mp h
    rw [Operand.demands, hname.lookedUp?_eq]
    exact List.mem_singleton_self _
  | .chain _ inner _, _, front, h => Operand.function_mem_demands hname inner 0 front h
  | .paren p, _, _, h => Pipeline.function_mem_demands hname p h
  | .bool .., _, _, h | .number _, _, _, h | .string .., _, _, h | .nil _, _, _, h | .dot _, _, _, h
  | .field .., _, _, h | .var _, _, _, h => nomatch h

/-- A name in operands that is no escaper is demanded. -/
theorem Operand.function_mem_allDemands (hname : IsPlain name) :
    ∀ (args : List Operand) (argc : Nat) (front : List Symbol),
    name ∈ Operand.allNames args → Demand.function name ∈ Operand.allDemands c argc front args
  | [], _, _, h => nomatch h
  | a :: rest, argc, front, h => by
    rcases List.mem_append.mp h with hhead | hrest
    · exact List.mem_append_right _ (Operand.function_mem_demands hname a argc _ hhead)
    · exact List.mem_append_left _ (Operand.function_mem_allDemands hname rest 0 front hrest)

/-- A name in a command that is no escaper is demanded. -/
theorem Command.function_mem_demands (hname : IsPlain name) :
    ∀ (cmd : Command) (chained : Bool) (front : List Symbol),
    name ∈ cmd.names → Demand.function name ∈ cmd.demands c chained front
  | .mk _ args, _, front, h => Operand.function_mem_allDemands hname args _ front h

/-- A name in a chain of commands that is no escaper is demanded. -/
theorem Command.function_mem_allDemands (hname : IsPlain name) : ∀ (cmds : List Command) (chained : Bool)
    (front : List Symbol), name ∈ Command.allNames cmds →
    Demand.function name ∈ Command.allDemands c chained front cmds
  | [], _, _, h => nomatch h
  | cmd :: rest, chained, front, h => by
    rcases List.mem_append.mp h with hhead | hrest
    · exact List.mem_append_left _ (Command.function_mem_demands hname cmd chained front hhead)
    · exact List.mem_append_right _ (Command.function_mem_allDemands hname rest true _ hrest)

/-- A name in a pipeline that is no escaper is looked up. -/
theorem Pipeline.function_mem_demands (hname : IsPlain name) : ∀ pipe : Pipeline, name ∈ pipe.names →
    Demand.function name ∈ pipe.demands c
  | .mk _ _ _ cmds, h => Command.function_mem_allDemands hname cmds false [] h

end

/-! ### Nodes -/

mutual

/-- A name in a node that is no escaper is demanded. -/
theorem Node.function_mem_demands (hname : IsPlain name) :
    ∀ n : Node, name ∈ n.names → Demand.function name ∈ n.demands c
  | .list ⟨_, ns⟩, h => Node.function_mem_allDemands hname ns h
  | .action _ pipe, h => Pipeline.function_mem_demands hname pipe h
  | .branch _ _ pipe ⟨_, ns⟩ orElse, h => by
    rcases List.mem_append.mp h with hfront | helse
    · rcases List.mem_append.mp hfront with hpipe | hbody
      · exact List.mem_append_left _ (Pipeline.function_mem_demands hname pipe hpipe)
      · exact List.mem_append_right _
          (List.mem_append_left _ (Node.function_mem_allDemands hname ns hbody))
    · exact List.mem_append_right _
        (List.mem_append_right _ (Node.function_mem_elseDemands hname orElse helse))
  | .template _ _ (some pipe), h =>
    List.mem_cons_of_mem _ (Pipeline.function_mem_demands hname pipe h)
  | .template _ _ none, h | .text .., h | .comment .., h | .breakLoop _, h | .continueLoop _, h =>
    nomatch h

/-- A name in nodes that is no escaper is demanded. -/
theorem Node.function_mem_allDemands (hname : IsPlain name) : ∀ ns : List Node, name ∈ Node.allNames ns →
    Demand.function name ∈ Node.allDemands c ns
  | [], h => nomatch h
  | n :: rest, h => by
    rcases List.mem_append.mp h with hhead | hrest
    · exact List.mem_append_left _ (Node.function_mem_demands hname n hhead)
    · exact List.mem_append_right _ (Node.function_mem_allDemands hname rest hrest)

/-- A name in an alternative that is no escaper is demanded. -/
theorem Node.function_mem_elseDemands (hname : IsPlain name) :
    ∀ orElse : Option (Block Node), name ∈ Node.elseNames orElse →
    Demand.function name ∈ Node.elseDemands c orElse
  | none, h => nomatch h
  | some ⟨_, ns⟩, h => Node.function_mem_allDemands hname ns h

end

/-- The demands of a node are among those of the nodes it occurs in. -/
theorem Node.Occurs.demands {n : Node} {ns : List Node} (h : n.Occurs ns) (hd : d ∈ n.demands c) :
    d ∈ Node.allDemands c ns := by
  induction h with
  | here rest => exact List.mem_append_left _ hd
  | behind m _ ih => exact List.mem_append_right _ ih
  | inList pos rest _ ih => exact List.mem_append_left _ ih
  | inBody kind pos bodyPos pipe orElse rest _ ih =>
    exact List.mem_append_left _ (List.mem_append_right _ (List.mem_append_left _ ih))
  | inElse kind pos elsePos pipe body rest _ ih =>
    exact List.mem_append_left _ (List.mem_append_right _ (List.mem_append_right _ ih))

/-- Whether a node is what makes a demand that no pipeline has. -/
def Node.Makes (n : Node) : Demand → Prop
  | .template target => ∃ pos pipe, n = .template pos target pipe
  | .loopControl => n.isLoopControl
  | _ => False

/-- Whether a demand is made by a node among others, or by one of the names in them. -/
def Demand.IsMadeIn (d : Demand) (names : List String) (ns : List Node) : Prop :=
  d.ArisesFrom names ∨ ∃ m : Node, m.Occurs ns ∧ m.Makes d

/-- A demand that is made in nodes is made in more nodes. -/
theorem Demand.IsMadeIn.mono {names names' : List String} {ns ns' : List Node} (h : d.IsMadeIn names ns)
    (hsubset : names ⊆ names') (hoccurs : ∀ m : Node, m.Occurs ns → m.Occurs ns') :
    d.IsMadeIn names' ns' := by
  rcases h with harises | ⟨m, hm, hmakes⟩
  · exact .inl (harises.mono hsubset)
  · exact .inr ⟨m, hoccurs m hm, hmakes⟩

mutual

/-- The demands of a node are made in it. -/
theorem Node.isMadeIn_of_mem : ∀ (n : Node) (rest : List Node), d ∈ n.demands c →
    d.IsMadeIn n.names (n :: rest)
  | .list ⟨pos, ns⟩, rest, h =>
    (Node.isMadeIn_of_mem_all ns h).mono (List.Subset.refl _) fun _ hm => .inList pos rest hm
  | .action _ pipe, _, h => .inl (Pipeline.arises_of_mem pipe h)
  | .branch kind pos pipe ⟨bodyPos, ns⟩ orElse, rest, h => by
    rcases List.mem_append.mp h with hpipe | hbodies
    · exact .inl ((Pipeline.arises_of_mem pipe hpipe).mono fun f hf =>
        List.mem_append_left _ (List.mem_append_left _ hf))
    · rcases List.mem_append.mp hbodies with hbody | helse
      · exact (Node.isMadeIn_of_mem_all ns hbody).mono
          (fun f hf => List.mem_append_left _ (List.mem_append_right _ hf))
          fun _ hm => .inBody kind pos bodyPos pipe orElse rest hm
      · cases orElse with
        | none => cases helse
        | some block =>
          obtain ⟨elsePos, others⟩ := block
          exact (Node.isMadeIn_of_mem_all others helse).mono (List.subset_append_right _ _)
            fun _ hm => .inElse kind pos elsePos pipe ⟨bodyPos, ns⟩ rest hm
  | .template pos target none, rest, h => by
    cases List.mem_singleton.mp h
    exact .inr ⟨_, .here rest, pos, none, rfl⟩
  | .template pos target (some pipe), rest, h => by
    rcases List.mem_cons.mp h with rfl | hpipe
    · exact .inr ⟨_, .here rest, pos, some pipe, rfl⟩
    · exact .inl (Pipeline.arises_of_mem pipe hpipe)
  | .breakLoop pos, rest, h | .continueLoop pos, rest, h => by
    cases List.mem_singleton.mp h
    exact .inr ⟨_, .here rest, rfl⟩
  | .text .., _, h | .comment .., _, h => nomatch h

/-- A demand of nodes is one of a pipeline in them, or is made by a call or by a way to leave a loop. -/
theorem Node.isMadeIn_of_mem_all : ∀ ns : List Node, d ∈ Node.allDemands c ns →
    d.IsMadeIn (Node.allNames ns) ns
  | [], h => nomatch h
  | n :: rest, h => by
    rcases List.mem_append.mp h with hhead | hrest
    · exact (Node.isMadeIn_of_mem n rest hhead).mono (List.subset_append_left _ _) fun _ hm => hm
    · exact (Node.isMadeIn_of_mem_all rest hrest).mono (List.subset_append_right _ _)
        fun _ hm => .behind n hm

end

namespace Compile

variable {schema : Schema} {registry : Registry} {options : CompileOptions} {set : TemplateSet}

/-! ### Sets -/

/-- Whether the name of an escaper is one that may be left out. -/
def isOptional (options : CompileOptions) (name : String) : Bool :=
  name == Builtin.htmlEscaperName || name == Builtin.htmlStringEscaperName ||
    name == Builtin.jsEscaperName || (name == Builtin.commentEscaperName && !options.dropComments)

/-- Whether everything that the trees of a set refer to can be resolved, apart from escapers that may not
be left out. -/
structure Resolvable (set : TemplateSet) (registry : Registry) (options : CompileOptions)
    (schema : Schema) : Prop where
  /-- There is no `break` and no `continue`. -/
  loops : ∀ name tree, set.get? name = some tree → ∀ n : Node, n.Occurs tree.root.nodes →
    n.isLoopControl = false
  /-- The targets of calls are there. -/
  calls : ∀ name tree, set.get? name = some tree → ∀ pos target pipe,
    (Node.template pos target pipe).Occurs tree.root.nodes → set.contains target
  /-- Numbers are integers, or look like the numbers with a fraction that they are. -/
  numbers : ∀ name tree, set.get? name = some tree → ∀ n : Number,
    .number n ∈ Node.allDemands ⟨set, registry, options, schema, name, tree.source⟩ tree.root.nodes →
      n.int.isSome ∨ n.float.isSome ∧ looksFractional n.text
  /-- Functions that are neither asset hooks nor escapers are registered under their names. -/
  functions : ∀ name tree, set.get? name = some tree → ∀ f ∈ Node.allNames tree.root.nodes,
    IsPlain f → (registry.get? f).isSome
  /-- Escapers that may be left out are registered if they are looked up nevertheless. -/
  escapers : ∀ name tree, set.get? name = some tree → ∀ f, isOptional options f →
    .function f ∈ Node.allDemands ⟨set, registry, options, schema, name, tree.source⟩ tree.root.nodes →
      (registry.get? f).isSome

/-- Whether all names in a set that are looked up are registered. -/
def RegistersLookups (set : TemplateSet) (registry : Registry) (options : CompileOptions)
    (schema : Schema) : Prop :=
  ∀ name tree, set.get? name = some tree → ∀ f,
    .function f ∈ Node.allDemands ⟨set, registry, options, schema, name, tree.source⟩ tree.root.nodes →
      (registry.get? f).isSome

/-- Whether all escapers in a set that may not be left out are registered. -/
def RegistersEscapers (set : TemplateSet) (registry : Registry) (options : CompileOptions) : Prop :=
  ∀ name tree, set.get? name = some tree → ∀ f ∈ Node.allNames tree.root.nodes,
    isEscaper f → isOptional options f = false → (registry.get? f).isSome

/-- The demands of a set are those of its trees. -/
theorem mem_demandsOf_iff : d ∈ demandsOf set registry options schema set.toList ↔
    ∃ name tree, set.get? name = some tree ∧
      d ∈ Node.allDemands ⟨set, registry, options, schema, name, tree.source⟩ tree.root.nodes := by
  simp only [demandsOf, List.mem_flatMap, Prod.exists, mem_toList_iff]

/-- A set whose demands are met is resolvable. -/
theorem resolvable_of_isMet
    (h : ∀ d ∈ demandsOf set registry options schema set.toList, d.IsMet registry set) :
    Resolvable set registry options schema ∧ RegistersLookups set registry options schema := by
  have hmet (d : Demand) (name : String) (tree : Tree) (htree : set.get? name = some tree)
      (hd : d ∈ Node.allDemands ⟨set, registry, options, schema, name, tree.source⟩ tree.root.nodes) :
      d.IsMet registry set := h d (mem_demandsOf_iff.mpr ⟨name, tree, htree, hd⟩)
  refine ⟨⟨fun name tree htree n hn => ?_, fun name tree htree pos target pipe hn => ?_,
    fun name tree htree n hn => hmet (.number n) name tree htree hn,
    fun name tree htree f hf hplain => ?_, fun name tree htree f _ hf => hmet _ name tree htree hf⟩,
    fun name tree htree f hf => hmet (.function f) name tree htree hf⟩
  · cases n with
    | breakLoop pos | continueLoop pos =>
      exact (hmet .loopControl name tree htree (hn.demands List.mem_cons_self)).elim
    | _ => rfl
  · refine hmet (.template target) name tree htree (hn.demands ?_)
    cases pipe <;> exact List.mem_cons_self
  · exact hmet (.function f) name tree htree (Node.function_mem_allDemands hplain _ hf)

/-- The demands of a resolvable set are met if the escapers that may not be left out are there. -/
theorem Resolvable.isMet (h : Resolvable set registry options schema)
    (hescapers : RegistersEscapers set registry options)
    (hd : d ∈ demandsOf set registry options schema set.toList) : d.IsMet registry set := by
  obtain ⟨name, tree, htree, hd⟩ := mem_demandsOf_iff.mp hd
  have hmade := Node.isMadeIn_of_mem_all _ hd
  cases d with
  | number n => exact h.numbers name tree htree n hd
  | template target =>
    obtain ⟨n, hn, pos, pipe, rfl⟩ := hmade.resolve_left id
    exact h.calls name tree htree pos target pipe hn
  | loopControl =>
    obtain ⟨n, hn, hloop⟩ := hmade.resolve_left id
    rw [Node.Makes, h.loops name tree htree n hn] at hloop
    cases hloop
  | function f =>
    by_cases hoptional : isOptional options f = true
    · exact h.escapers name tree htree f hoptional hd
    rcases hmade with (⟨hf, hhook⟩ | hstring) | ⟨n, -, hmakes⟩
    · by_cases hescaper : isEscaper f = true
      · exact hescapers name tree htree f hf hescaper (Bool.eq_false_iff.mpr hoptional)
      · exact h.functions name tree htree f hf ⟨hhook, Bool.eq_false_iff.mpr hescaper⟩
    · exact absurd (by simp [isOptional, hstring]) hoptional
    · exact hmakes.elim

/-- What is compiled is resolvable, and all names that are looked up are registered. A well-formed set
that is resolvable is compiled if the escapers that may not be left out are registered, unless it does
not fit. -/
theorem resolvable_sets_compile (hwf : set.wellFormed) (hkeyed : registry.IsKeyed)
    (hfits : ∀ e, compile schema registry options set = .error e → ∀ table, e.kind ≠ .tableOverflow table) :
    ((∃ p, compile schema registry options set = .ok p) →
        Resolvable set registry options schema ∧ RegistersLookups set registry options schema) ∧
      (Resolvable set registry options schema → RegistersEscapers set registry options →
        ∃ p, compile schema registry options set = .ok p) := by
  have hiff := exists_compile_iff hwf hkeyed hfits
  exact ⟨fun hp => resolvable_of_isMet (hiff.mp hp),
    fun h hescapers => hiff.mpr fun d hd => h.isMet hescapers hd⟩

end Compile

/-! ### Samples -/

namespace Sample

open Builtin

/-- A set whose template `main` is one action. -/
def ofCommands (cmds : List Command) : TemplateSet :=
  .ofRoot ⟨"main", ⟨0, [.action 0 (.mk 0 false [] cmds)]⟩, none⟩

/-- `{{.C | html_template_commentescaper}}` -/
def commented : TemplateSet :=
  ofCommands [.mk 0 [.field 0 ["C"]], .mk 0 [.ident 0 commentEscaperName]]

/-- `{{lower .C | html_template_htmlescaper}}`, where the escaper for HTML strings is called. -/
def lowered : TemplateSet :=
  ofCommands [.mk 0 [.ident 0 "lower", .field 0 ["C"]], .mk 0 [.ident 0 htmlEscaperName]]

/-- The names of functions in a set. -/
def namesOf (set : TemplateSet) : List String :=
  set.toList.flatMap fun entry => Node.allNames entry.2.root.nodes

/-- Why a set is refused. -/
def refusal (registry : Registry) (set : TemplateSet) : Option CompileErrorKind :=
  match Compile.compile .plain registry .standard set with
  | .ok _ => none
  | .error e => some e.kind

end Sample

namespace Compile

open Sample Builtin

/-- A set whose look-ups are all registered. -/
theorem resolvable_sets_compile_sample :
    Resolvable lowered builtins .standard .plain ∧
      RegistersLookups lowered builtins .standard .plain := by
  obtain ⟨p, hp⟩ := exists_of_isOk
    (show (compile .plain builtins .standard lowered).isOk by decide +kernel)
  have hwf : lowered.wellFormed := by decide +kernel
  have hkeyed : builtins.IsKeyed := Registry.isKeyed_withBuiltins Registry.all_empty .plain
  have hfits (e : CompileError) (he : compile .plain builtins .standard lowered = .error e)
      (table : String) : e.kind ≠ .tableOverflow table := by
    rw [hp] at he
    cases he
  exact (resolvable_sets_compile hwf hkeyed hfits).1 ⟨p, hp⟩

/-- The escaper of comments is not looked up, so it need not be registered. The escaper for HTML strings
has to be, though only the one for HTML is named. -/
theorem names_are_not_lookups :
    commented.wellFormed ∧ namesOf commented = [commentEscaperName] ∧
      (builtins.erase commentEscaperName).get? commentEscaperName = none ∧
      refusal (builtins.erase commentEscaperName) commented = none ∧
      lowered.wellFormed ∧ namesOf lowered = ["lower", htmlEscaperName] ∧
      ((builtins.erase htmlStringEscaperName).get? "lower").isSome ∧
      ((builtins.erase htmlStringEscaperName).get? htmlEscaperName).isSome ∧
      refusal (builtins.erase htmlStringEscaperName) lowered =
        some (.undefinedFunction htmlStringEscaperName) := by
  decide +kernel

end Compile
end Stencil
