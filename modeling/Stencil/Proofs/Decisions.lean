import Stencil.Compile

/-!
# Decisions of the compiler

Where compilation looks at the code it has written so far. An escaper is left out or replaced by
another one as the instruction in front of it calls a function or not, and a newline at the start of
a piece of markup is left out if no code is in front of it. Folding changes both what is in front and
whether there is anything, so these decisions may turn out differently with and without it.
-/

namespace Stencil

namespace Compile

/-- What has been decided while a piece of a template was compiled, in the shape of the piece. -/
inductive Decisions where
  | nothing
  /-- The function that a call has become, or none if it has been left out. -/
  | call (function : Option String)
  /-- What is written of a text. -/
  | text (s : String)
  | both (first second : Decisions)
deriving DecidableEq

/-- What is decided after a step of compilation, nothing if the step fails. -/
def Decisions.after {α : Type} (x : M α) (s : State) (next : α → State → Decisions) : Decisions :=
  match x s with
  | .ok (a, s') => next a s'
  | .error _ => nothing

end Compile

open Compile

mutual

/-- What is decided while an operand is compiled. -/
def Operand.decisions (c : Context) (argc : Nat) (f : Fragment) (s : State) : Operand → Decisions
  | .chain _ inner _ => inner.decisions c 0 f s
  | .ident _ name =>
    match assetBytes? c.set name with
    | some _ => .nothing
    | none => .call (resolve c.options s.noPrint (knownOperand s.tables argc f) name)
  | .paren p => p.decisions c s
  | _ => .nothing

/-- What is decided while operands are compiled, the last one first. -/
def Operand.allDecisions (c : Context) (argc : Nat) (f : Fragment) (s : State) :
    List Operand → Decisions
  | [] => .nothing
  | a :: rest =>
    .both (Operand.allDecisions c 0 f s rest)
      (.after (operands c 0 f rest) s fun f s => a.decisions c argc f s)

/-- What is decided while a command is compiled. -/
def Command.decisions (c : Context) (chained : Bool) (f : Fragment) (s : State) :
    Command → Decisions
  | .mk _ args => Operand.allDecisions c (args.length - 1 + chained.toNat) f s args

/-- What is decided while commands are compiled. -/
def Command.allDecisions (c : Context) (chained : Bool) (f : Fragment) (s : State) :
    List Command → Decisions
  | [] => .nothing
  | cmd :: rest =>
    .both (cmd.decisions c chained f s)
      (.after (command c chained f cmd) s fun f s => Command.allDecisions c true f s rest)

/-- What is decided while a pipeline is compiled. -/
def Pipeline.decisions (c : Context) (s : State) : Pipeline → Decisions
  | .mk _ _ _ cmds => Command.allDecisions c false .empty s cmds

end

mutual

/-- What is decided while a node is compiled. -/
def Node.decisions (c : Context) (f : Fragment) (s : State) : Node → Decisions
  | .list ⟨_, ns⟩ => Node.allDecisions c f s ns
  | .text _ str => .text (staticText c.set f str)
  | .action _ pipe => pipe.decisions c s
  | .branch _ _ pipe ⟨bodyPos, ns⟩ orElse =>
    .both (pipe.decisions c s)
      (.after (pipeline c false pipe) s fun _ s =>
        .both (Node.allDecisions c .empty { s with declared := [] } ns)
          (.after (inScope (return (← nodes c .empty ns).mark bodyPos)) s fun _ s =>
            Node.elseDecisions c s orElse))
  | .template _ _ (some pipe) => pipe.decisions c s
  | _ => .nothing

/-- What is decided while nodes are compiled. -/
def Node.allDecisions (c : Context) (f : Fragment) (s : State) : List Node → Decisions
  | [] => .nothing
  | n :: rest =>
    .both (n.decisions c f s) (.after (node c f n) s fun f s => Node.allDecisions c f s rest)

/-- What is decided while an alternative is compiled. -/
def Node.elseDecisions (c : Context) (s : State) : Option (Block Node) → Decisions
  | none => .nothing
  | some ⟨_, ns⟩ => Node.allDecisions c .empty { s with declared := [] } ns

end

namespace TemplateSet

/-- What is decided while templates are compiled and added to a program. -/
def decisionsFrom (set : TemplateSet) (registry : Registry) (options : CompileOptions) (p : Program) :
    List (String × Tree) → Decisions
  | [] => .nothing
  | (name, tree) :: rest =>
    .both
      (Node.allDecisions ⟨set, registry, options, p.schema, name, tree.source⟩ .empty
        ⟨p.tables, false, []⟩ tree.root.nodes)
      (match addTemplate set registry options p name tree with
      | .ok p => decisionsFrom set registry options p rest
      | .error _ => .nothing)

/-- What is decided while a template set is compiled. -/
def decisions (set : TemplateSet) (schema : Schema) (registry : Registry)
    (options : CompileOptions) : Decisions :=
  set.decisionsFrom registry options ⟨schema, .initial, .empty, set.root⟩ set.toList

end TemplateSet

end Stencil
