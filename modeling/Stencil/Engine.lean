import Stencil.Builtin
import Stencil.Compile
import Stencil.Diagnostic

/-!
# Engines

An engine compiles template sets against a fixed registry of functions and with default options.
-/

namespace Stencil

/-- A registry of functions, the host's record types and default options. -/
structure Engine where
  schema : Schema
  registry : Registry
  compileOptions : CompileOptions
  runOptions : RunOptions

namespace Engine

/-- An engine whose host adds to the registry of built-in functions. -/
def create (schema : Schema) (compileOptions : CompileOptions) (runOptions : RunOptions)
    (extend : Registry → Registry) : Engine :=
  ⟨schema, extend (Registry.empty.withBuiltins schema), compileOptions, runOptions⟩

/-- Compile a template set, overriding some of the default options. -/
def compileWith (engine : Engine) (options : CompileOverride) (set : TemplateSet) :
    Except EngineError Program :=
  match Compile.compile engine.schema engine.registry (engine.compileOptions.override options)
      set with
  | .ok p => .ok p
  | .error e => .error (.compilation e ((set.get? e.location.template).bind (·.source)))

/-- Compile a template set with the default options. -/
def compile (engine : Engine) (set : TemplateSet) : Except EngineError Program :=
  engine.compileWith ⟨none, none, none⟩ set

end Engine
end Stencil
