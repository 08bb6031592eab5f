import Stencil.Proofs.Resolution

/-!
# What trees demand

What has to be there for a tree to be compiled: a function for each name that is looked up, a template
for each call, a value for each number, and no `break` or `continue`. Which names are looked up depends
on the code in front of an escaper. That code is told from the tree alone, instruction by instruction,
apart from the tables that it refers to.
-/

namespace Stencil

/-- An instruction of a pipeline, with what it refers to. -/
inductive Symbol where
  | push (v : Value)
  | call (argc : Nat) (f : Function)
  | other

namespace Symbol

/-- Whether the instruction pushes a constant or calls a pure function. -/
def isConstant : Symbol → Bool
  | push _ => true
  | call _ f => f.pure
  | other => false

/-- The values that constant instructions leave on a stack, the last one on top, in the order in which
they have been pushed. -/
def evaluate? : List Symbol → List Value → Option (List Value)
  | [], stack => some stack.reverse
  | push v :: rest, stack => evaluate? rest (v :: stack)
  | call argc f :: rest, stack =>
    if argc ≤ stack.length then
      match Call.function f (stack.take argc) with
      | .ok v => evaluate? rest (v :: stack.drop argc)
      | .error _ => none
    else none
  | other :: _, _ => none

/-- The declared type of the only argument of a call behind instructions, if it is the result of a
function. -/
def knownOperand (argc : Nat) (front : List Symbol) : Option ParamType :=
  if argc = 1 then
    match front.getLast? with
    | some (call _ f) => some f.sig.returns
    | _ => none
  else none

end Symbol

namespace Compile

/-- The name that is looked up for the name of a function, unless it is an asset hook or an escaper that
is left out. -/
def lookedUp? (c : Context) (argc : Nat) (front : List Symbol) (name : String) : Option String :=
  if isHook name then none else resolve c.options false (Symbol.knownOperand argc front) name

/-- The instructions with the call of a function behind them. -/
def callBehind (c : Context) (argc : Nat) (front : List Symbol) (name : String) : List Symbol :=
  match lookedUp? c argc front name with
  | none => front
  | some known =>
    match c.registry.get? known with
    | some f => front ++ [.call argc f]
    | none => front ++ [.other]

/-- The instructions of a pipeline, replaced by their values if they are constant. -/
def foldSymbols (c : Context) (code : List Symbol) : List Symbol :=
  if c.options.foldConstants && 1 < code.length && code.all Symbol.isConstant then
    match Symbol.evaluate? code [] with
    | some values => values.map .push
    | none => code
  else code

end Compile

open Compile (lookedUp? callBehind foldSymbols)

mutual

/-- The code of an operand behind other code. -/
def Operand.symbols (c : Compile.Context) (argc : Nat) (front : List Symbol) : Operand → List Symbol
  | .bool _ b => front ++ [.push (.bool b)]
  | .number n => front ++ [((Compile.numberValue? n).map Symbol.push).getD .other]
  | .string _ str => front ++ [.push (.str str)]
  | .nil _ => front ++ [.push .nil]
  | .dot _ => front ++ [.other]
  | .field _ path => front ++ [.other] ++ path.map fun _ => .other
  | .chain _ inner path => inner.symbols c 0 front ++ path.map fun _ => .other
  | .var v => front ++ [.other] ++ v.fields.map fun _ => .other
  | .ident _ name => callBehind c argc front name
  | .paren p => front ++ p.symbols c ++ (p.decl.getLast?.map fun _ => Symbol.other).toList

/-- The code of operands, which are compiled from the last to the first. -/
def Operand.allSymbols (c : Compile.Context) (argc : Nat) (front : List Symbol) :
    List Operand → List Symbol
  | [] => front
  | a :: rest => a.symbols c argc (Operand.allSymbols c 0 front rest)

/-- The code of a command behind other code. -/
def Command.symbols (c : Compile.Context) (chained : Bool) (front : List Symbol) :
    Command → List Symbol
  | .mk _ args => Operand.allSymbols c (args.length - 1 + chained.toNat) front args

/-- The code of commands behind other code. -/
def Command.allSymbols (c : Compile.Context) (chained : Bool) (front : List Symbol) :
    List Command → List Symbol
  | [] => front
  | cmd :: rest => Command.allSymbols c true (cmd.symbols c chained front) rest

/-- The code of a pipeline that binds its variables. -/
def Pipeline.symbols (c : Compile.Context) : Pipeline → List Symbol
  | .mk _ _ decl cmds => foldSymbols c (Command.allSymbols c false [] cmds) ++ decl.map fun _ => .other

end

mutual

/-- The code of an operand is told from the tree, the functions and the options. -/
theorem Operand.symbols_congr {c c' : Compile.Context} (hregistry : c.registry = c'.registry)
    (hoptions : c.options = c'.options) (argc : Nat) (front : List Symbol) :
    ∀ a : Operand, a.symbols c argc front = a.symbols c' argc front
  | .bool .. | .number _ | .string .. | .nil _ | .dot _ | .field .. | .var _ => rfl
  | .chain _ inner _ => by
    rw [Operand.symbols, Operand.symbols, Operand.symbols_congr hregistry hoptions 0 front inner]
  | .ident _ name => by simp only [Operand.symbols, callBehind, lookedUp?, hregistry, hoptions]
  | .paren p => by rw [Operand.symbols, Operand.symbols, Pipeline.symbols_congr hregistry hoptions p]

/-- The symbols of operands depend only on the registry and the options. -/
theorem Operand.allSymbols_congr {c c' : Compile.Context} (hregistry : c.registry = c'.registry)
    (hoptions : c.options = c'.options) (argc : Nat) (front : List Symbol) : ∀ args : List Operand,
    Operand.allSymbols c argc front args = Operand.allSymbols c' argc front args
  | [] => rfl
  | a :: rest => by
    rw [Operand.allSymbols, Operand.allSymbols, Operand.allSymbols_congr hregistry hoptions 0 front rest,
      Operand.symbols_congr hregistry hoptions argc _ a]

/-- The symbols of a command depend only on the registry and the options. -/
theorem Command.symbols_congr {c c' : Compile.Context} (hregistry : c.registry = c'.registry)
    (hoptions : c.options = c'.options) (chained : Bool) (front : List Symbol) : ∀ cmd : Command,
    cmd.symbols c chained front = cmd.symbols c' chained front
  | .mk _ args => Operand.allSymbols_congr hregistry hoptions _ front args

/-- The symbols of a chain of commands depend only on the registry and the options. -/
theorem Command.allSymbols_congr {c c' : Compile.Context} (hregistry : c.registry = c'.registry)
    (hoptions : c.options = c'.options) (chained : Bool) (front : List Symbol) : ∀ cmds : List Command,
    Command.allSymbols c chained front cmds = Command.allSymbols c' chained front cmds
  | [] => rfl
  | cmd :: rest => by
    rw [Command.allSymbols, Command.allSymbols,
      Command.symbols_congr hregistry hoptions chained front cmd,
      Command.allSymbols_congr hregistry hoptions true _ rest]

/-- The symbols of a pipeline depend only on the registry and the options. -/
theorem Pipeline.symbols_congr {c c' : Compile.Context} (hregistry : c.registry = c'.registry)
    (hoptions : c.options = c'.options) : ∀ pipe : Pipeline, pipe.symbols c = pipe.symbols c'
  | .mk _ _ _ cmds => by
    simp only [Pipeline.symbols, foldSymbols, hoptions,
      Command.allSymbols_congr hregistry hoptions false [] cmds]

end

/-- What a tree needs to be compiled. -/
inductive Demand where
  /-- A function of this name. -/
  | function (name : String)
  /-- A template of this name. -/
  | template (name : String)
  /-- A value of this number. -/
  | number (n : Number)
  /-- A way to leave or to go on with a loop, which there is not. -/
  | loopControl

/-- Whether a demand is met: functions and templates are there, and numbers are integers or look like
the numbers with a fraction that they are. -/
def Demand.IsMet (registry : Registry) (set : TemplateSet) : Demand → Prop
  | function name => (registry.get? name).isSome
  | template name => set.contains name
  | number n => n.int.isSome ∨ n.float.isSome ∧ Compile.looksFractional n.text
  | loopControl => False

mutual

/-- The demands of an operand behind other code. -/
def Operand.demands (c : Compile.Context) (argc : Nat) (front : List Symbol) : Operand → List Demand
  | .number n => [.number n]
  | .ident _ name => ((lookedUp? c argc front name).map .function).toList
  | .chain _ inner _ => inner.demands c 0 front
  | .paren p => p.demands c
  | _ => []

/-- The demands of operands. -/
def Operand.allDemands (c : Compile.Context) (argc : Nat) (front : List Symbol) :
    List Operand → List Demand
  | [] => []
  | a :: rest =>
    Operand.allDemands c 0 front rest ++ a.demands c argc (Operand.allSymbols c 0 front rest)

/-- The demands of a command behind other code. -/
def Command.demands (c : Compile.Context) (chained : Bool) (front : List Symbol) :
    Command → List Demand
  | .mk _ args => Operand.allDemands c (args.length - 1 + chained.toNat) front args

/-- The demands of commands. -/
def Command.allDemands (c : Compile.Context) (chained : Bool) (front : List Symbol) :
    List Command → List Demand
  | [] => []
  | cmd :: rest =>
    cmd.demands c chained front ++ Command.allDemands c true (cmd.symbols c chained front) rest

/-- The demands of a pipeline. -/
def Pipeline.demands (c : Compile.Context) : Pipeline → List Demand
  | .mk _ _ _ cmds => Command.allDemands c false [] cmds

end

mutual

/-- The demands of a node. -/
def Node.demands (c : Compile.Context) : Node → List Demand
  | .list ⟨_, ns⟩ => Node.allDemands c ns
  | .action _ pipe => pipe.demands c
  | .branch _ _ pipe ⟨_, ns⟩ orElse =>
    pipe.demands c ++ (Node.allDemands c ns ++ Node.elseDemands c orElse)
  | .template _ name none => [.template name]
  | .template _ name (some pipe) => .template name :: pipe.demands c
  | .breakLoop _ | .continueLoop _ => [.loopControl]
  | .text .. | .comment .. => []

/-- The demands of nodes. -/
def Node.allDemands (c : Compile.Context) : List Node → List Demand
  | [] => []
  | n :: rest => n.demands c ++ Node.allDemands c rest

/-- The demands of an alternative. -/
def Node.elseDemands (c : Compile.Context) : Option (Block Node) → List Demand
  | none => []
  | some ⟨_, ns⟩ => Node.allDemands c ns

end

namespace Compile

variable {c : Context} {pos : Pos} {s s' s₁ : State} {f f' g : Fragment} {t t' : Tables}
  {code rest : List Instr} {syms more : List Symbol}

/-! ### Code and its symbols -/

/-- An instruction with what it refers to, if that is in the tables. -/
def symbol? (t : Tables) : Instr → Option Symbol
  | .val index => (t.values[index]?).map .push
  | .string index => (t.texts[index]?).map fun str => .push (.str str)
  | .func argc index => (t.funcs[index]?).map (.call argc)
  | _ => some .other

/-- Whether code refers to what the symbols tell. -/
def Denotes (t : Tables) (code : List Instr) (syms : List Symbol) : Prop :=
  code.map (symbol? t) = syms.map some

/-- An instruction keeps its symbol when tables grow. -/
theorem symbol?_of_extends {i : Instr} {sym : Symbol} (hextends : t.Extends t')
    (h : symbol? t i = some sym) : symbol? t' i = some sym := by
  cases i with
  | val index =>
    obtain ⟨v, hv, rfl⟩ := Option.map_eq_some_iff.mp h
    exact Option.map_eq_some_iff.mpr ⟨v, hextends.values _ _ hv, rfl⟩
  | string index =>
    obtain ⟨str, hstr, rfl⟩ := Option.map_eq_some_iff.mp h
    exact Option.map_eq_some_iff.mpr ⟨str, hextends.texts _ _ hstr, rfl⟩
  | func argc index =>
    obtain ⟨f, hf, rfl⟩ := Option.map_eq_some_iff.mp h
    exact Option.map_eq_some_iff.mpr ⟨f, hextends.funcs _ _ hf, rfl⟩
  | _ => exact h

/-- No code has no symbols. -/
theorem denotes_nil (t : Tables) : Denotes t [] [] := rfl

/-- Symbols are told instruction by instruction. -/
theorem denotes_cons {i : Instr} {sym : Symbol} :
    Denotes t (i :: code) (sym :: syms) ↔ symbol? t i = some sym ∧ Denotes t code syms := by
  simp [Denotes]

/-- Code behind other code has its symbols behind those of the other code. -/
theorem Denotes.append (h : Denotes t code syms) (h' : Denotes t rest more) :
    Denotes t (code ++ rest) (syms ++ more) := by
  unfold Denotes at h h' ⊢
  rw [List.map_append, List.map_append, h, h']

/-- An instruction that is pushed has its symbol at the end. -/
theorem Denotes.push {i : Instr} {sym : Symbol} (h : Denotes t code syms) (hi : symbol? t i = some sym) :
    Denotes t (code ++ [i]) (syms ++ [sym]) := h.append (denotes_cons.mpr ⟨hi, denotes_nil t⟩)

/-- Code keeps its symbols when tables grow. -/
theorem Denotes.mono (h : Denotes t code syms) (hextends : t.Extends t') : Denotes t' code syms := by
  induction code generalizing syms with
  | nil => exact h
  | cons i code ih =>
    cases syms with
    | nil => cases h
    | cons sym syms =>
      obtain ⟨hi, hcode⟩ := denotes_cons.mp h
      exact denotes_cons.mpr ⟨symbol?_of_extends hextends hi, ih hcode⟩

/-- Each instruction has one symbol. -/
theorem Denotes.length_eq (h : Denotes t code syms) : code.length = syms.length := by
  simpa using congrArg List.length h

/-- The function called last is told from the symbols. -/
theorem Denotes.knownOperand (h : Denotes t f.instrs syms) (argc : Nat) :
    knownOperand t argc f = Symbol.knownOperand argc syms := by
  unfold Compile.knownOperand Symbol.knownOperand
  have hlast : (f.last?).map (symbol? t) = syms.getLast?.map some := by
    rw [Fragment.last?, ← Array.getLast?_toList, ← List.getLast?_map, ← List.getLast?_map]
    exact congrArg List.getLast? h
  split
  · cases hi : f.last? with
    | none =>
      rw [hi] at hlast
      cases hsym : syms.getLast? with
      | none => rfl
      | some sym =>
        rw [hsym] at hlast
        cases hlast
    | some i =>
      rw [hi, Option.map_some] at hlast
      obtain ⟨sym, hsym, hi'⟩ := Option.map_eq_some_iff.mp hlast.symm
      rw [hsym]
      cases i with
      | func n index =>
        obtain ⟨g, hg, rfl⟩ := Option.map_eq_some_iff.mp hi'.symm
        simp only [hg, Option.map_some]
      | val index =>
        obtain ⟨v, -, rfl⟩ := Option.map_eq_some_iff.mp hi'.symm
        rfl
      | string index =>
        obtain ⟨str, -, rfl⟩ := Option.map_eq_some_iff.mp hi'.symm
        rfl
      | _ =>
        cases hi'
        rfl
  · rfl

/-! ### Folding -/

/-- Whether code is constant is told from the symbols. -/
theorem isConstant_eq {i : Instr} {sym : Symbol} (h : symbol? t i = some sym) :
    isConstant t i = sym.isConstant := by
  cases i with
  | val index =>
    obtain ⟨v, -, rfl⟩ := Option.map_eq_some_iff.mp h
    rfl
  | string index =>
    obtain ⟨str, -, rfl⟩ := Option.map_eq_some_iff.mp h
    rfl
  | func argc index =>
    obtain ⟨g, hg, rfl⟩ := Option.map_eq_some_iff.mp h
    simp only [isConstant, hg, Option.any_some, Symbol.isConstant]
  | _ =>
    cases h
    rfl

/-- Code is constant exactly if its symbols are. -/
theorem Denotes.all_isConstant (h : Denotes t code syms) :
    code.all (isConstant t) = syms.all Symbol.isConstant := by
  induction code generalizing syms with
  | nil =>
    cases syms with
    | nil => rfl
    | cons sym syms => cases h
  | cons i code ih =>
    cases syms with
    | nil => cases h
    | cons sym syms =>
      obtain ⟨hi, hcode⟩ := denotes_cons.mp h
      rw [List.all_cons, List.all_cons, isConstant_eq hi, ih hcode]

/-- Constant code leaves the values that its symbols tell. -/
theorem Denotes.values?_steps (schema : Schema) (h : Denotes t code syms)
    (hconstant : syms.all Symbol.isConstant) (m : Machine) :
    (m.steps schema t code).values? = Symbol.evaluate? syms m.stack := by
  induction code generalizing syms m with
  | nil =>
    cases syms with
    | nil => rfl
    | cons sym syms => cases h
  | cons i code ih =>
    cases syms with
    | nil => cases h
    | cons sym syms =>
      obtain ⟨hsym, hrest⟩ := denotes_cons.mp h
      obtain ⟨hsymConstant, hrestConstant⟩ := Bool.and_eq_true_iff.mp (List.all_cons ▸ hconstant)
      have hnext := ih hrest hrestConstant
      rw [Machine.steps]
      cases i with
      | val index =>
        obtain ⟨v, hv, rfl⟩ := Option.map_eq_some_iff.mp hsym
        rw [(Machine.Advances.val hv).step_eq, Symbol.evaluate?]
        exact hnext (m.push v)
      | string index =>
        obtain ⟨str, hstr, rfl⟩ := Option.map_eq_some_iff.mp hsym
        rw [(Machine.Advances.string hstr).step_eq, Symbol.evaluate?]
        exact hnext (m.push (.str str))
      | func argc index =>
        obtain ⟨g, hg, rfl⟩ := Option.map_eq_some_iff.mp hsym
        rw [Symbol.evaluate?]
        by_cases hargc : argc ≤ m.stack.length
        · rw [if_pos hargc]
          cases hcall : Call.function g (m.stack.take argc) with
          | ok v =>
            rw [(Machine.Advances.func hg hargc hcall).step_eq]
            exact hnext { m with stack := v :: m.stack.drop argc }
          | error e =>
            simp only [Machine.step, hg, Machine.popArgs?, if_pos hargc, hcall, Machine.pushResult]
            rfl
        · rw [if_neg hargc]
          simp only [Machine.step, hg, Machine.popArgs?, if_neg hargc, Machine.invalid]
          rfl
      | _ =>
        cases hsym
        cases hsymConstant

/-- Code is folded when its symbols are, and to the same values. -/
theorem Denotes.evaluate? (h : Denotes t f.instrs syms) (hconstant : syms.all Symbol.isConstant)
    (schema : Schema) : Compile.evaluate? schema t f.code = Symbol.evaluate? syms [] := by
  have hcode : Straight f.instrs := fun i hi =>
    Machine.isStraight_of_isConstant (List.all_eq_true.mp (h.all_isConstant.trans hconstant) i hi)
  rw [Machine.evaluate?_eq_steps schema t hcode]
  exact h.values?_steps schema hconstant Machine.blank

end Compile
end Stencil
