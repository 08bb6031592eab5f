import Stencil.Proofs.Folding
import Stencil.Proofs.Points
import Stencil.Proofs.Singles

/-!
# Calls in runs

What the calls of commands get in runs of a program. A run gets to a call only through the code of its
command: the operands are evaluated from the last to the first, each on top of those behind it, and the
result of the command in front of it lies below all of them. So the call gets the values of its operands
in their order, and that result last, whenever each operand has left one value. An operand that leaves
more, such as a pipeline in parentheses that passes a value on to a constant, makes the call take some
of these in the place of what follows. All this is told of the code that the command is compiled to in
the state in which it is visited.
-/

namespace Stencil

/-- Only call instructions call. -/
theorem Machine.Calls.isCall {schema : Schema} {t : Tables} {m : Machine} {i : Instr} {args : List Value}
    (h : m.Calls schema t i args) : i.isCall := by cases h <;> rfl

namespace Compile

namespace CommandCode

variable {c : Context} {s : State} {before : List Command} {head : Operand} {args : List Operand}

/-- Whether the operands of a command and the receiver of its call are evaluated on a machine, one after
the other. -/
structure LeadsTo (K : CommandCode c s before head args) (schema : Schema) (t' : Tables)
    (receiver : List Instr) (m m₁ m₂ : Machine) : Prop where
  operands : m.steps schema t' K.operands.reverse.flatten = .done m₁
  receiver : m₁.steps schema t' receiver = .done m₂

/-- Whether the call of a command always gets the value of each operand, in their order, and then what
the command gets from the one in front of it, if each operand has left one value, and its receivers are
right in front of it. Both are so if the operands are known to leave one value. -/
def PassesOperands (K : CommandCode c s before head args) : Prop :=
  ∀ schema t' receiver call m m₁ m₂ passed, K.headCode = receiver ++ [call] →
    K.LeadsTo schema t' receiver m m₁ m₂ → m₂.Calls schema t' call passed →
      (∀ values, Machine.Evaluates schema t' K.operands values m m₁ → Machine.Receives call m₁ m₂ →
        K.piped ≤ m.stack.length ∧ passed = values ++ m.stack.take K.piped) ∧
      (Operand.allSingle args → ∃ values, Machine.Evaluates schema t' K.operands values m m₁) ∧
      (head.receiverSingle → Machine.Receives call m₁ m₂)

/-- Whether a command is a part of a template that all runs of the program go through from its start on
their way to its call. -/
def Placed (K : CommandCode c s before head args) (p : Program) (u : CompiledTemplate) : Prop :=
  ∃ front rest, u.code.toList = front ++ K.instrs ++ rest ∧
    ∀ receiver call start P, K.headCode = receiver ++ [call] → start.pc = 0 → p.Reaches start P →
      P.code = u.code.toList →
      P.pc = (front ++ K.earlier ++ K.operands.reverse.flatten ++ receiver).length →
      ∃ m₀ m m₁, p.Reaches start { P with pc := front.length, machine := m₀ } ∧
        m₀.steps p.schema p.tables K.earlier = .done m ∧
        K.LeadsTo p.schema p.tables receiver m m₁ P.machine

variable {p : Program} {u : CompiledTemplate} {code : List Instr}

/-- The code of a command that is straight-line code is placed where it is a piece of enclosed code. -/
theorem placed (K : CommandCode c s before head args) (hpart : K.instrs <:+: code)
    (hstraight : Straight code) (henclosed : Enclosed code u.code.toList) : K.Placed p u := by
  have hinstrs : Straight K.instrs := fun i hi => hstraight i (hpart.subset hi)
  obtain ⟨front, rest, hwhole, hfront, hrest⟩ := (hstraight.enclosed hpart).trans henclosed
  refine ⟨front, rest, hwhole, fun receiver call start P hhead hzero hreach hcode hpc => ?_⟩
  have hsplit : K.instrs = (K.earlier ++ (K.operands.reverse.flatten ++ receiver)) ++ [call] := by
    rw [instrs, hhead]
    simp only [List.append_assoc]
  have hpc' : P.pc = front.length + (K.earlier ++ (K.operands.reverse.flatten ++ receiver)).length := by
    rw [hpc, ← List.length_append]
    simp only [List.append_assoc]
  have hbefore : (K.earlier ++ (K.operands.reverse.flatten ++ receiver)).length < K.instrs.length := by
    rw [hsplit, ← List.concat_eq_append, List.length_concat]
    exact Nat.lt_succ_self _
  obtain ⟨m₀, hentry, hsteps⟩ :=
    hreach.exists_entry (Straight.skips_whole hinstrs hfront hrest) (Straight.take hinstrs _) hzero
      (hcode.trans hwhole) hpc' hbefore
  rw [hsplit, List.take_left] at hsteps
  obtain ⟨m, hearlier, hsteps⟩ := (Machine.steps_append_eq_done _).mp hsteps
  obtain ⟨m₁, hoperands, hreceiver⟩ := (Machine.steps_append_eq_done _).mp hsteps
  exact ⟨m₀, m, m₁, hentry, hearlier, hoperands, hreceiver⟩

/-- The call of a command with a callable head gets the values of its operands. -/
theorem passesOperands (K : CommandCode c s before head args) (hhead : head.isCallable) :
    K.PassesOperands := by
  intro schema t' receiver call m m₁ m₂ passed hcode hleads hcalls
  obtain ⟨code, hadds, hcall⟩ := yields_head _ hhead _ _ _ _ K.compiled_head
  obtain rfl := List.append_cancel_left (hadds.symm.trans K.instrs_result)
  obtain ⟨hargc, hreceives⟩ := hcall receiver call hcode hcalls.isCall
  refine ⟨fun values hvalues hreceived => ?_, fun hsingle => ?_, fun hsingle => ?_⟩
  · refine hcalls.args_of_evaluates hvalues hreceived ?_
    rw [hargc, K.compiled_operands.length_eq]
    rfl
  · exact Machine.exists_evaluates (K.compiled_operands.replaces hsingle) hleads.operands
  · exact hreceives hsingle schema t' m₁ m₂ hleads.receiver

end CommandCode

/-- The place of a command in a template of a compiled program: the pipeline `outer` of one of its nodes
has been compiled to a piece of the code of the template, where it can only be entered at its start, and
the command stands in the `k`-th one of the pipelines that have been visited then. Code that neither calls
nor binds anything may have been left out. -/
structure CommandSite (c : Context) (p : Program) (outer : NodePipeline) (k : Nat) (before : List Command)
    (head : Operand) (args : List Operand) where
  template : CompiledTemplate
  state : State
  result : Fragment
  after : State
  visit : PipelineVisit
  code : CommandCode c visit.before before head args
  found : p.templates[c.name]? = some template
  sound : state.tables.Sound
  compiled : pipeline c outer.binds outer.pipe state = .ok (result, after)
  extends_ : after.tables.Extends p.tables
  place : Enclosed result.instrs template.code.toList ∨ ∀ i ∈ result.instrs, i.isCall = false ∧ i.isQuiet
  visited : (outer.pipe.visits c state)[k]? = some visit

namespace CommandSite

variable {c : Context} {p : Program} {outer : NodePipeline} {k : Nat} {pipe : Pipeline}
  {before after : List Command} {pos : Pos} {head : Operand} {args : List Operand}

/-- Whether a command has been run while the program was compiled, because a pipeline around it has been
folded. -/
def Evaluated (S : CommandSite c p outer k before head args) : Prop :=
  ∃ W ∈ outer.pipe.visits c S.state, S.visit ∈ W.pipe.visits c W.before ∧
    FoldedAround c p.tables W S.code.instrs

variable (S : CommandSite c p outer k before head args)

/-- The code of the pipeline of a node is straight-line code. -/
theorem straight : Straight S.result.instrs := by
  obtain ⟨binds, outer⟩ := outer
  cases binds with
  | true => exact (yields_emitsBindings outer _ _ S.compiled).1.straight
  | false => exact (yields_condition_emitsBindings outer _ _ S.compiled).1.straight

/-- The pipeline with the command is the one that has been visited. -/
theorem pipe_visit (hpipe : outer.pipe.pipelines[k]? = some pipe) : S.visit.pipe = pipe := by
  rw [← map_visits S.compiled, List.getElem?_map, S.visited, Option.map_some, Option.some.injEq] at hpipe
  exact hpipe

/-- A command is run in the code of its template or while this is compiled, unless it calls nothing. -/
theorem placed_or_evaluated (hpipe : outer.pipe.pipelines[k]? = some pipe)
    (hcommand : pipe.commands = before ++ .mk pos (head :: args) :: after) :
    S.code.Placed p S.template ∨ S.Evaluated ∨ ∀ i ∈ S.code.headCode, i.isCall = false := by
  obtain ⟨body, s', hbody, -, hlocated⟩ :=
    (locates_of_pipeline S.sound S.compiled (List.mem_of_getElem? S.visited)).mono List.infix_rfl S.extends_
  rw [S.pipe_visit hpipe, hcommand] at hbody
  have hown := (S.code.isPrefix hbody).isInfix
  rcases hlocated with hpart | ⟨W, hW, hinside, folded, s₁, g, s₂, hcmds, hfold, hfolded, ht, hpart⟩
  · have hpiece := hown.trans hpart
    refine S.place.imp (S.code.placed hpiece S.straight) fun hquiet => .inr fun i hi => (hquiet i ?_).1
    exact hpiece.subset (List.mem_append_right _ (List.mem_append_right _ hi))
  · exact .inr (.inl ⟨W, hW, hinside, folded, s₁, g, s₂, hcmds, hfold, hfolded, ht, hown.trans hpart⟩)

end CommandSite

variable {schema : Schema} {registry : Registry} {options : CompileOptions} {set : TemplateSet}
  {p : Program} {name : String} {tree : Tree} {outer : NodePipeline} {k : Nat} {pipe : Pipeline}
  {before after : List Command} {pos : Pos} {head : Operand} {args : List Operand}

/-- Every command of a template with at least one operand is at a site. -/
theorem nonempty_commandSite (hcompile : compile schema registry options set = .ok p)
    (htree : set.get? name = some tree) (houter : outer ∈ Node.allPipelines tree.root.nodes)
    (hpipe : outer.pipe.pipelines[k]? = some pipe)
    (hcommand : pipe.commands = before ++ .mk pos (head :: args) :: after) :
    Nonempty (CommandSite ⟨set, registry, options, schema, name, tree.source⟩ p outer k before head args) := by
  obtain ⟨u, hu, hwritten⟩ := exists_template_of_compile hcompile htree
  obtain ⟨s, g, s', hs, hrun, hextends, -, hplace⟩ := hwritten.holds _ houter
  rw [← map_visits hrun, List.getElem?_map, Option.map_eq_some_iff] at hpipe
  obtain ⟨V, hvisited, rfl⟩ := hpipe
  obtain ⟨body, s₁, hbody, -, -⟩ := locates_of_pipeline hs hrun (List.mem_of_getElem? hvisited)
  rw [hcommand] at hbody
  obtain ⟨K, -⟩ := exists_commandCode hbody
  exact ⟨⟨u, s, g, s', V, K, hu, hs, hrun, hextends, hplace, hvisited⟩⟩

/-- Wherever a run makes the call of a command, also in the parentheses of pipelines, the call gets the
values of the operands of the command, in their order, and behind another command the result of that
last, if each operand has left one value and no more. Operands in which only functions get arguments do
so, whatever their values are. -/
theorem calls_get_their_operands (hcompile : compile schema registry options set = .ok p)
    (htree : set.get? name = some tree) (houter : outer ∈ Node.allPipelines tree.root.nodes)
    (hpipe : outer.pipe.pipelines[k]? = some pipe)
    (hcommand : pipe.commands = before ++ .mk pos (head :: args) :: after) (hhead : head.isCallable) :
    Nonempty (CommandSite ⟨set, registry, options, schema, name, tree.source⟩ p outer k before head args) ∧
    ∀ S : CommandSite ⟨set, registry, options, schema, name, tree.source⟩ p outer k before head args,
      (S.code.Placed p S.template ∨ S.Evaluated ∨ ∀ i ∈ S.code.headCode, i.isCall = false) ∧
      S.code.PassesOperands :=
  ⟨nonempty_commandSite hcompile htree houter hpipe hcommand,
    fun S => ⟨S.placed_or_evaluated hpipe hcommand, S.code.passesOperands hhead⟩⟩

end Compile

/-! ### Samples -/

namespace Sample

/-- `"r" | print .A "x"` -/
def pipedCall : Pipeline :=
  .mk 0 false [] [.mk 0 [.string 0 "r"],
    .mk 0 [.ident 0 "print", .field 0 ["A"], .string 0 "x"]]

/-- A template with a call of a function that gets two operands and a result. -/
def piped : TemplateSet := .ofRoot ⟨"main", ⟨0, [.action 0 pipedCall]⟩, none⟩

/-- `{{print (.A "p") "x"}}`, where the argument of `.A` is left on the stack if that is not a method. -/
def leftover : TemplateSet :=
  .ofRoot ⟨"main", ⟨0, [.action 0 (.mk 0 false [] [.mk 0 [.ident 0 "print",
    .paren (.mk 0 false [] [.mk 0 [.field 0 ["A"], .string 0 "p"]]), .string 0 "x"]])]⟩, none⟩

/-- The indices in the code of the sample with the argument that is left: those of the two texts, of the
field and of the function. -/
def leftoverCode? (code : List Instr) : Option (Nat × Nat × Nat × Nat) :=
  match code with
  | [.mark, .string x, .string s, .dot, .field argc a, .func argc' f, .print, .pop 0] =>
    if argc = 1 ∧ argc' = 2 then some (x, s, a, f) else none
  | _ => none

/-- The code of the sample with the argument that is left. -/
theorem exists_leftover : ∃ p u x s a f g, Compile.compile .plain builtins .standard leftover = .ok p ∧
    p.templates["main"]? = some u ∧
    u.code.toList = [.mark, .string x, .string s, .dot, .field 1 a, .func 2 f, .print, .pop 0] ∧
    p.tables.strings[x]? = some "x" ∧ p.tables.strings[s]? = some "p" ∧
    p.tables.strings[a]? = some "A" ∧ p.tables.funcs[f]? = some g := by
  obtain ⟨p, hp⟩ : ∃ p, Compile.compile .plain builtins .standard leftover = .ok p :=
    Compile.exists_of_isOk (by decide +kernel)
  have hall : (Compile.compile .plain builtins .standard leftover).toOption.all fun p =>
      p.templates["main"]?.any fun u => (leftoverCode? u.code.toList).any fun r =>
        p.tables.strings[r.1]? == some "x" && p.tables.strings[r.2.1]? == some "p" &&
          p.tables.strings[r.2.2.1]? == some "A" && p.tables.funcs[r.2.2.2]?.isSome := by
    decide +kernel
  rw [hp] at hall
  simp only [Except.toOption, Option.all_some, Option.any_eq_true, Bool.and_eq_true, beq_iff_eq,
    Option.isSome_iff_exists] at hall
  obtain ⟨u, hu, ⟨x, s, a, f⟩, hcode, ⟨⟨hx, hs⟩, ha⟩, g, hg⟩ := hall
  refine ⟨p, u, x, s, a, f, g, hp, hu, ?_, hx, hs, ha, hg⟩
  unfold leftoverCode? at hcode
  split at hcode
  · next heq =>
    split at hcode
    · next hargc =>
      cases hcode
      rw [heq, hargc.1, hargc.2]
    · cases hcode
  · cases hcode

end Sample

namespace Compile

/-- The call of the sample gets the values of both of its operands and the result of the command in
front of it. -/
theorem calls_get_their_operands_sample :
    ∃ p, compile .plain Sample.builtins .standard Sample.piped = .ok p ∧
      ∃ S : CommandSite ⟨Sample.piped, Sample.builtins, .standard, .plain, "main", none⟩ p
          ⟨true, Sample.pipedCall⟩ 0 [.mk 0 [.string 0 "r"]] (.ident 0 "print")
          [.field 0 ["A"], .string 0 "x"],
        (S.code.Placed p S.template ∨ S.Evaluated ∨ ∀ i ∈ S.code.headCode, i.isCall = false) ∧
        ∀ schema t receiver call m m₁ m₂ passed, S.code.headCode = receiver ++ [call] →
          S.code.LeadsTo schema t receiver m m₁ m₂ → m₂.Calls schema t call passed →
          ∃ values, Machine.Evaluates schema t S.code.operands values m m₁ ∧
            passed = values ++ m.stack.take 1 := by
  obtain ⟨p, hp⟩ : ∃ p, compile .plain Sample.builtins .standard Sample.piped = .ok p :=
    exists_of_isOk (by decide +kernel)
  have hget : Sample.piped.get? "main" = some ⟨"main", ⟨0, [.action 0 Sample.pipedCall]⟩, none⟩ := rfl
  have houter : (⟨true, Sample.pipedCall⟩ : NodePipeline) ∈ Node.allPipelines [.action 0 Sample.pipedCall] :=
    List.mem_singleton_self _
  have hpipe : Sample.pipedCall.pipelines[0]? = some Sample.pipedCall := rfl
  have hcommand : Sample.pipedCall.commands = [.mk 0 [.string 0 "r"]] ++
      .mk 0 (.ident 0 "print" :: [.field 0 ["A"], .string 0 "x"]) :: [] := rfl
  obtain ⟨⟨S⟩, hall⟩ := calls_get_their_operands hp hget houter hpipe hcommand rfl
  obtain ⟨hplace, hpasses⟩ := hall S
  refine ⟨p, hp, S, hplace, ?_⟩
  intro schema t receiver call m m₁ m₂ passed hcode hleads hcalls
  obtain ⟨hpassed, hsingle, hreceiver⟩ :=
    hpasses schema t receiver call m m₁ m₂ passed hcode hleads hcalls
  obtain ⟨values, hvalues⟩ := hsingle (by decide)
  exact ⟨values, hvalues, (hpassed values hvalues (hreceiver rfl)).2⟩

/-- Of the two operands of the sample, the call does not get the second one, but the argument that the
first one has left below its value. -/
theorem call_misses_operand :
    ∃ p u P Q index, compile .plain Sample.builtins .standard Sample.leftover = .ok p ∧
      p.templates["main"]? = some u ∧
      p.Reaches (Program.startPoint "main" u (.map .text [(.text "A", .str "a")]) .nil
        (.fresh .unlimited .none)) P ∧
      P.pc = 2 ∧ P.machine.stack.head? = some (.str "x") ∧
      p.Reaches P Q ∧ Q.machine.stack.head? = some (.str "a") ∧
      Q.code[Q.pc]? = some (.func 2 index) ∧
      Q.machine.Calls p.schema p.tables (.func 2 index) [.str "a", .str "p"] := by
  obtain ⟨p, u, x, s, a, f, g, hp, hu, hcode, hx, hs, ha, hg⟩ := Sample.exists_leftover
  let data : Value := .map .text [(.text "A", .str "a")]
  let m := ((Machine.fresh .unlimited .none).bind Tables.varsVar .nil).activate "" data
  let m₁ := { m with marks := m.stack.length :: m.marks }
  let m₂ := m₁.push (.str "x")
  let m₃ := (m₂.push (.str "p")).push (.str "a")
  have hmark : p.Reaches (Program.startPoint "main" u data .nil (.fresh .unlimited .none))
      ⟨["main"], u.code.toList, 1, m₁⟩ :=
    Program.Reaches.refl.next (i := .mark) (by simp [Program.startPoint, hcode]) rfl
  rw [hcode] at hmark
  have hsound := sound_of_compile hp
  have hsecond : m₁.steps p.schema p.tables [.string x] = .done m₂ := by
    simp only [Machine.steps, Machine.step, hsound.texts, hx]
    rfl
  have hfirst : m₂.steps p.schema p.tables [.string s, .dot, .field 1 a] = .done m₃ := by
    simp only [Machine.steps, Machine.step, hsound.texts, hs, ha]
    rfl
  have hP : p.Reaches _ ⟨["main"], [.mark] ++ [.string x] ++
      [.string s, .dot, .field 1 a, .func 2 f, .print, .pop 0], 2, m₂⟩ :=
    hmark.steps (straight_singleton rfl) hsecond
  have hQ : p.Reaches ⟨["main"], [.mark, .string x] ++ [.string s, .dot, .field 1 a] ++
      [.func 2 f, .print, .pop 0], 2, m₂⟩ ⟨["main"], _, 5, m₃⟩ :=
    Program.Reaches.refl.steps (by simp [Straight, Instr.isStraight]) hfirst
  exact ⟨p, u, _, _, f, hp, hu, hP, rfl, rfl, hQ, rfl, rfl, .function hg rfl⟩

end Compile

end Stencil
