import Stencil.Compile.Escaping
import Stencil.Compile.Folding

/-!
# Compiling pipelines

The code of a command pushes the values of its operands from the last to the first, so that the
first argument of a call is on top. The head of a command carries the number of arguments, to which
the result of the command before it in the pipeline is added; that result lies below all others.
-/

namespace Stencil.Compile

/-- The name of the hook that writes the assets at the top. -/
def topAssetsName : String := "render_top_assets"

/-- The name of the hook that writes the assets at the bottom. -/
def bottomAssetsName : String := "render_bottom_assets"

/-- Whether the text of a number, without its sign, is that of a number with a fraction. -/
def looksFractional (text : String) : Bool :=
  let digits := text.toList.dropWhile fun c => c == '+' || c == '-'
  let hex := ['0', 'x'].isPrefixOf digits || ['0', 'X'].isPrefixOf digits
  digits.contains '.' ||
    (!hex && (digits.contains 'e' || digits.contains 'E')) ||
    (hex && (digits.contains 'p' || digits.contains 'P'))

/-- The value of a number constant. -/
def numberValue? (n : Number) : Option Value :=
  match n.float, n.int with
  | some x, some i => some (if looksFractional n.text then .float x else .int i)
  | some x, none => if looksFractional n.text then some (.float x) else none
  | none, some i => some (.int i)
  | none, none => none

/-- One `FIELD` per name. Only the last one can be a method call with arguments. -/
def fields (c : Context) (pos : Pos) (argc : Nat) (f : Fragment) : List String → M Fragment
  | [] => return f
  | name :: rest => do
    let index ← intern c pos name
    fields c pos argc (f.push (.field (if rest.isEmpty then argc else 0) index)) rest

/-- The bytes that an asset hook writes. -/
def assetBytes? (set : TemplateSet) (name : String) : Option ByteArray :=
  if name = topAssetsName then some set.topAssets
  else if name = bottomAssetsName then some set.bottomAssets
  else none

/-- A function name: an asset hook, an escaper or a call. -/
def identifier (c : Context) (pos : Pos) (argc : Nat) (f : Fragment) (name : String) :
    M Fragment := do
  match assetBytes? c.set name with
  | some bytes =>
    let f ← if bytes.isEmpty then pure f else pushBytes c pos f bytes
    modify ({ · with noPrint := true })
    return f
  | none =>
    let s ← get
    match resolve c.options s.noPrint (knownOperand s.tables argc f) name with
    | none => return f
    | some name =>
      match c.registry.get? name with
      | none => fail c pos (.undefinedFunction name)
      | some function =>
        let index ← addEntry c pos "function" (·.addFunc function)
        return f.push (.func argc index)

/-- Bind the result of a pipeline to its variables. -/
def bindAll (c : Context) (assign : Bool) (f : Fragment) : List Variable → M Fragment
  | [] => return f
  | v :: rest => do
    let name ← intern c v.pos v.name
    unless assign do modify fun s => { s with declared := name :: s.declared }
    bindAll c assign (f.push (.setVar name assign)) rest

mutual

/-- The code of an operand, after the code in front of it. A call takes `argc` arguments. -/
def operand (c : Context) (argc : Nat) (f : Fragment) : Operand → M Fragment
  | .bool pos b => return (← pushValue c pos f (.bool b)).mark pos
  | .number n =>
    match numberValue? n with
    | some v => return (← pushValue c n.pos f v).mark n.pos
    | none => fail c n.pos (.invalidNumber n.text)
  | .string pos s => return (f.push (.string (← intern c pos s))).mark pos
  | .nil pos => return (← pushValue c pos f .nil).mark pos
  | .dot pos => return (f.push .dot).mark pos
  | .field pos path => return (← fields c pos argc (f.push .dot) path).mark pos
  | .chain pos inner path => do
    let f ← operand c 0 f inner
    return (← fields c pos argc f path).mark pos
  | .var v => do
    let name ← intern c v.pos v.name
    return (← fields c v.pos argc (f.push (.var name)) v.fields).mark v.pos
  | .ident pos name => return (← identifier c pos argc f name).mark pos
  | .paren p => do
    let f := f.append (← pipeline c true p)
    match p.decl.getLast? with
    | some v => return (f.push (.var (← intern c v.pos v.name))).mark p.pos
    | none => return f.mark p.pos

/-- The code of operands from the last to the first; only the first can be called. -/
def operands (c : Context) (argc : Nat) (f : Fragment) : List Operand → M Fragment
  | [] => return f
  | a :: rest => do
    let f ← operands c 0 f rest
    operand c argc f a

/-- The code of a command, which may get the result of the command before it. -/
def command (c : Context) (chained : Bool) (f : Fragment) : Command → M Fragment
  | .mk pos args => do
    let argc := args.length - 1 + chained.toNat
    if argc < Tables.halfWordLimit then
      return (← operands c argc f args).mark pos
    else fail c pos (.tableOverflow "argument")

/-- The code of commands in sequence. -/
def commands (c : Context) (chained : Bool) (f : Fragment) : List Command → M Fragment
  | [] => return f
  | cmd :: rest => do
    let f ← command c chained f cmd
    commands c true f rest

/-- The code of a pipeline. The condition of a branch leaves binding its variables to the
branch. -/
def pipeline (c : Context) (binds : Bool) : Pipeline → M Fragment
  | .mk pos assign decl cmds => do
    let body ← commands c false .empty cmds
    let body ← fold c pos body
    let body ← if binds then bindAll c assign body decl else pure body
    return body.mark pos

end

end Stencil.Compile
