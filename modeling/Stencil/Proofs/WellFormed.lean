import Stencil.Compile.Pipeline

/-!
# Well-formed template sets

The template sets that compile to balanced code. They are those in which every pipeline leaves a
value and is written where its variables can be used. An asset hook leaves no value, so it has to
stand alone, and an escaper that is left out leaves its operand, so it needs one.
-/

namespace Stencil

namespace Compile

/-- Whether a name is that of an asset hook. -/
def isHook (name : String) : Bool := name == topAssetsName || name == bottomAssetsName

end Compile

mutual

/-- Whether an operand leaves a value; `called` says that it gets arguments. -/
def Operand.wellFormed (called : Bool) : Operand → Bool
  | .ident _ name => !Compile.isHook name && (called || name != Builtin.commentEscaperName)
  | .chain _ inner _ => inner.wellFormed false
  | .paren pipe => pipe.wellFormed 1
  | _ => true

/-- Whether all operands that are not called leave a value. -/
def Operand.allWellFormed : List Operand → Bool
  | [] => true
  | a :: rest => a.wellFormed false && Operand.allWellFormed rest

/-- Whether a command has an operand and all operands leave a value; `chained` says that it gets the
result of another command. -/
def Command.wellFormed (chained : Bool) : Command → Bool
  | .mk _ [] => false
  | .mk _ (head :: rest) => head.wellFormed (chained || !rest.isEmpty) && Operand.allWellFormed rest

/-- Whether all commands behind the first one are well formed. -/
def Command.allWellFormed : List Command → Bool
  | [] => true
  | cmd :: rest => cmd.wellFormed true && Command.allWellFormed rest

/-- Whether a pipeline has at most the given number of variables, has a command, and all commands
are well formed. -/
def Pipeline.wellFormed (vars : Nat) : Pipeline → Bool
  | .mk _ _ _ [] => false
  | .mk _ _ decl (cmd :: rest) =>
    decide (decl.length ≤ vars) && cmd.wellFormed false && Command.allWellFormed rest

end

/-- Whether a pipeline is nothing but an asset hook. -/
def Pipeline.isHook : Pipeline → Bool
  | .mk _ _ [] [.mk _ [.ident _ name]] => Compile.isHook name
  | _ => false

/-- The number of variables the pipeline of a branch may have. -/
def BranchKind.vars : BranchKind → Nat
  | .range => 2
  | _ => 1

mutual

/-- Whether all pipelines of a node are well formed. -/
def Node.wellFormed : Node → Bool
  | .list ⟨_, nodes⟩ => Node.allWellFormed nodes
  | .action _ pipe => pipe.isHook || pipe.wellFormed 1
  | .branch kind _ pipe ⟨_, nodes⟩ orElse =>
    pipe.wellFormed kind.vars && Node.allWellFormed nodes && Node.elseWellFormed orElse
  | .template _ _ (some pipe) => pipe.wellFormed 0
  | _ => true

/-- Whether all pipelines of nodes are well formed. -/
def Node.allWellFormed : List Node → Bool
  | [] => true
  | node :: rest => node.wellFormed && Node.allWellFormed rest

/-- Whether all pipelines of an alternative are well formed. -/
def Node.elseWellFormed : Option (Block Node) → Bool
  | none => true
  | some ⟨_, nodes⟩ => Node.allWellFormed nodes

end

namespace TemplateSet

/-- Whether all pipelines of a template set are well formed. -/
def wellFormed (set : TemplateSet) : Bool :=
  set.toList.all fun entry => Node.allWellFormed entry.2.root.nodes

end TemplateSet

/-! ### A sample -/

namespace Sample

/-- A pipeline that is nothing but the dot, with the given variables. -/
def dotPipe (vars : List String) : Pipeline :=
  .mk 0 false (vars.map fun name => ⟨0, [name]⟩) [.mk 0 [.dot 0]]

/-- The item of a row: `{{if .}}{{$i}}{{else}}-{{end}}`. -/
def item : Node :=
  .branch .ifThen 0 (dotPipe []) ⟨0, [.action 0 (.mk 0 false [] [.mk 0 [.var ⟨0, ["$i"]⟩]])]⟩
    (some ⟨0, [.text 0 "-"]⟩)

/-- A row of items: `{{range $i, $v := .}}…{{else}}none{{end}}`. -/
def row : Node :=
  .branch .range 0 (dotPipe ["$i", "$v"]) ⟨0, [item]⟩ (some ⟨0, [.text 0 "none"]⟩)

/-- The template `main` writes a row and calls the template `end`. -/
def main : Tree := ⟨"main", ⟨0, [row, .template 0 "end" none]⟩, none⟩

/-- A set with a range, a conditional in it and a call. -/
def set : TemplateSet := (TemplateSet.ofRoot main).insert ⟨"end", ⟨0, [.text 0 "."]⟩, none⟩

/-- The sample set is well formed. -/
theorem wellFormed_set : set.wellFormed := by decide +kernel

end Sample

end Stencil
