import Stencil.Compile.Branch
import Stencil.Compile.Pipeline
import Stencil.Namespace

/-!
# Compiling nodes

The code of the statements of a template, each added to the code in front of it. Variables declared
in the body of a branch are removed at its end.
-/

namespace Stencil

namespace Text

/-- Whether a list of characters occurs in another one. -/
def occursIn (part : List Char) : List Char → Bool
  | [] => part.isEmpty
  | c :: rest => part.isPrefixOf (c :: rest) || occursIn part rest

/-- Whether a text occurs in another one. -/
def contains (text part : String) : Bool := occursIn part.toList text.toList

end Text

namespace Compile

/-- The static text of a text node. At the beginning of a piece of markup a newline in front of an
element is left out, as it only ends a header line. -/
def staticText (set : TemplateSet) (f : Fragment) (s : String) : String :=
  if f.isEmpty && Text.contains set.contentType "html" then
    match s.toList with
    | '\n' :: '<' :: rest => String.ofList ('<' :: rest)
    | _ => s
  else s

/-- Code that writes a text node. -/
def text (c : Context) (pos : Pos) (f : Fragment) (s : String) : M Fragment :=
  let s := staticText c.set f s
  if s.isEmpty then return f else pushBytes c pos f s.toUTF8

/-- What an action writes that does nothing but print a constant. -/
def printedConstant? (c : Context) (t : Tables) (code : Array Instr) : Option String :=
  match code.toList with
  | [.val index, .print] => do
    let v ← t.values[index]?
    (v.printed c.schema).toOption
  | _ => none

/-- The code of an action: it prints the value of its pipeline, unless it binds a variable or
contains an asset hook. A constant becomes static text. -/
def action (c : Context) (pos : Pos) (f : Fragment) (pipe : Pipeline) : M Fragment := do
  let g ← pipeline c true pipe
  let s ← get
  let g := if pipe.decl.isEmpty && !s.noPrint then g.push .print else g
  set { s with noPrint := false }
  match printedConstant? c s.tables g.code with
  | some text => if text.isEmpty then return f else pushBytes c pos f text.toUTF8
  | none => return f.append (← balanced c pos g)

/-- The namespace operand of a call from this template: it is relative to its own namespace. -/
def callNamespace (c : Context) (pos : Pos) (target : String) : M Nat := do
  let ns ← intern c pos (Namespace.relative (Namespace.of c.name) (Namespace.of target))
  if ns < Tables.halfWordLimit then return ns
  else fail c pos (.tableOverflow "string")

/-- The code of a template call. -/
def templateCall (c : Context) (pos : Pos) (f : Fragment) (name : String)
    (pipe : Option Pipeline) : M Fragment := do
  unless c.set.contains name do fail c pos (.undefinedTemplate name)
  let g ← match pipe with
    | some pipe => pipeline c true pipe
    | none => pushValue c pos .empty .nil
  let (g, pop) := (← balanced c pos g).takePop
  let ns ← callNamespace c pos name
  let index ← intern c pos name
  return ((f.append g).push (.template ns index)).addPop pop

/-- The indices of the names of variables. -/
def internAll (c : Context) : List Variable → M (List Nat)
  | [] => return []
  | v :: rest => do
    let name ← intern c v.pos v.name
    return name :: (← internAll c rest)

/-- Compile the body of a branch in a scope of its own. -/
def inScope (compile : M Fragment) : M Fragment := do
  let outer := (← get).declared
  modify ({ · with declared := [] })
  let f ← compile
  let names := (← get).declared
  modify ({ · with declared := outer })
  return unsetAll f names

mutual

/-- The code of a node, after the code in front of it. -/
def node (c : Context) (f : Fragment) : Node → M Fragment
  | .list ⟨pos, ns⟩ => return (← nodes c f ns).mark pos
  | .text pos s => return (← text c pos f s).mark pos
  | .action pos pipe => return (← action c pos f pipe).mark pos
  | .comment pos _ => return f.mark pos
  | .branch kind pos pipe ⟨bodyPos, bodyNodes⟩ orElse => do
    let condition ← pipeline c false pipe
    let body ← inScope (return (← nodes c .empty bodyNodes).mark bodyPos)
    let orElse ← alternative c orElse
    let (condition, pop) := (← balanced c pos condition).takePop
    let decl ← internAll c pipe.decl
    let g := layout kind condition pipe.assign decl ⟨body, orElse, pop⟩
    if jumpsFit g then return (f.append g).mark pos
    else fail c pos (.tableOverflow "jump")
  | .template pos name pipe => return (← templateCall c pos f name pipe).mark pos
  | .breakLoop pos => fail c pos (.unsupportedNode "break")
  | .continueLoop pos => fail c pos (.unsupportedNode "continue")

/-- The code of nodes, after the code in front of them. -/
def nodes (c : Context) (f : Fragment) : List Node → M Fragment
  | [] => return f
  | n :: rest => do
    let f ← node c f n
    nodes c f rest

/-- The code of the alternative of a branch, if there is any. -/
def alternative (c : Context) : Option (Block Node) → M (Option Fragment)
  | none => return none
  | some ⟨pos, ns⟩ => do
    let g ← inScope (return (← nodes c .empty ns).mark pos)
    return if g.isEmpty then none else some g

end

/-- The code of a template. -/
def template (c : Context) (tree : Tree) : M CompiledTemplate := do
  modify ({ · with noPrint := false, declared := [] })
  let f ← nodes c .empty tree.root.nodes
  let f := f.mark tree.root.pos
  return ⟨f.code, f.marks, tree.source⟩

end Compile
end Stencil
