import Stencil.Compile.Context
import Stencil.Machine.Run

/-!
# Constant folding

Code that only pushes constants and calls pure functions is run at compile time and replaced by
its results. If it fails, it is kept, so that the error shows when the template is rendered.
-/

namespace Stencil.Compile

/-- Whether an instruction pushes a constant or calls a pure function. -/
def isConstant (t : Tables) : Instr → Bool
  | .val _ | .string _ => true
  | .func _ index => (t.funcs[index]?).any (·.pure)
  | _ => false

/-- The results of running code on a new machine. -/
def evaluate? (schema : Schema) (t : Tables) (code : Array Instr) : Option (List Value) :=
  match Machine.evaluate schema t (code.size + 1) code (.fresh .unlimited .none) with
  | .done values _ => some values
  | _ => none

/-- Code that pushes constants. -/
def pushValues (c : Context) (pos : Pos) (f : Fragment) : List Value → M Fragment
  | [] => return f
  | v :: rest => do
    let f ← pushValue c pos f v
    pushValues c pos f rest

/-- The code of a pipeline, evaluated if that is possible and asked for. -/
def fold (c : Context) (pos : Pos) (body : Fragment) : M Fragment := do
  let t := (← get).tables
  if c.options.foldConstants && 1 < body.size && body.code.all (isConstant t) then
    match evaluate? c.schema t body.code with
    | some values => pushValues c pos .empty values
    | none => return body
  else return body

end Stencil.Compile
