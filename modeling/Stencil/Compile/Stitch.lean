import Stencil.Program

/-!
# Stitching

A template whose whole code writes one chunk is written in place instead of being called. Templates
are visited one after the other, and each sees the ones before it as they have become.
-/

namespace Stencil.Program

/-- The instruction that is the whole code of a trivial template. -/
def trivialBody? (t : CompiledTemplate) : Option Instr :=
  match t.code.toList with
  | [.wb index] => some (.wb index)
  | _ => none

/-- An instruction with calls of trivial templates replaced by what they write. -/
def stitchInstr (p : Program) (i : Instr) : Instr :=
  match i with
  | .template _ name =>
    let body := do
      let target ← p.tables.strings[name]?
      let t ← p.templates[target]?
      trivialBody? t
    body.getD i
  | _ => i

/-- Stitch the template of one name. -/
def stitchTemplate (p : Program) (name : String) : Program :=
  match p.templates[name]? with
  | none => p
  | some t =>
    { p with templates := p.templates.insert name { t with code := t.code.map p.stitchInstr } }

/-- Stitch templates in the given order. -/
def stitchIn (p : Program) (names : List String) : Program := names.foldl stitchTemplate p

/-- Stitch all templates. -/
def stitch (p : Program) : Program := p.stitchIn p.templateNames

end Stencil.Program
