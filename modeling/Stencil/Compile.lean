import Stencil.Compile.Node
import Stencil.Compile.Stitch

/-!
# Compilation

Compiling a template set to a program. All templates share the tables of the program and are
compiled in the order of their names.
-/

namespace Stencil.Compile

/-- Compile one template of a set and add it to the program. -/
def addTemplate (set : TemplateSet) (registry : Registry) (options : CompileOptions) (p : Program)
    (name : String) (tree : Tree) : Except CompileError Program := do
  let c : Context := ⟨set, registry, options, p.schema, name, tree.source⟩
  let (t, s) ← (template c tree).run ⟨p.tables, false, []⟩
  return { p with tables := s.tables, templates := p.templates.insert name t }

/-- Compile templates and add them to the program. -/
def addTemplates (set : TemplateSet) (registry : Registry) (options : CompileOptions)
    (p : Program) : List (String × Tree) → Except CompileError Program
  | [] => .ok p
  | (name, tree) :: rest => do
    let p ← addTemplate set registry options p name tree
    addTemplates set registry options p rest

/-- Compile a template set against a registry of functions. -/
def compile (schema : Schema) (registry : Registry) (options : CompileOptions)
    (set : TemplateSet) : Except CompileError Program := do
  let start : Program := ⟨schema, .initial, .empty, set.root⟩
  let p ← addTemplates set registry options start set.toList
  return if options.stitch then p.stitch else p

end Stencil.Compile
