import Stencil.Diagnostic
import Stencil.Machine.Run
import Stencil.Options
import Stencil.Text.Utf8

/-!
# Sessions

Rendering one program any number of times. A session keeps the emptied stacks of finished renders
for later ones, and what the streams in the data have yet to deliver.
-/

namespace Stencil

/-- A program with its run options, stacks that can be used again, and the streams. -/
structure Session where
  program : Program
  options : RunOptions
  pool : List Stacks
  streams : Streams

/-- What a render asks for. -/
structure RenderRequest where
  name : String
  data : Value
  vars : Vars
  options : RunOverride
  sink : Sink

/-- The outcome of a render: the sink with the output, and the error if there was one. -/
inductive Rendered where
  | done (sink : Sink)
  | failed (error : EngineError) (sink : Sink)
  | outOfFuel

namespace Session

/-- A session in which nothing has been rendered yet. -/
def start (program : Program) (options : RunOptions) (streams : Streams) : Session :=
  ⟨program, options, [], streams⟩

/-- Take stacks from the pool, or new ones if it is empty or not to be used. -/
def checkout (s : Session) (pooled : Bool) : Stacks × Session :=
  match pooled, s.pool with
  | true, spare :: pool => (spare, { s with pool := pool })
  | _, _ => (.empty, s)

/-- Empty the stacks of a machine and put them into the pool. -/
def checkin (s : Session) (pooled : Bool) (m : Machine) : Session :=
  if pooled then { s with pool := m.reset.toStacks :: s.pool } else s

/-- The error of a render with the source text of the template it points into. -/
def runtimeError (p : Program) (e : ExecutionError) : EngineError :=
  .runtime e do
    let loc ← e.location
    let t ← p.templates[loc.template]?
    t.source

/-- Render a template. -/
def render (s : Session) (fuel : Nat) (r : RenderRequest) : Rendered × Session :=
  if s.program.hasTemplate r.name then
    let pooled := (s.options.override r.options).poolStates
    let (spare, s) := s.checkout pooled
    let m : Machine := { spare with dot := .nil, sink := r.sink, streams := s.streams }
    match s.program.run fuel r.name r.data r.vars.toValue m with
    | .done m => (.done m.sink, { s.checkin pooled m with streams := m.streams })
    | .failed e m =>
      (.failed (runtimeError s.program e) m.sink, { s.checkin pooled m with streams := m.streams })
    | .outOfFuel => (.outOfFuel, s)
  else (.failed (.misuse ("no such template " ++ Text.quoted r.name)) r.sink, s)

end Session

namespace Rendered

/-- The output as text; a failed render has none. -/
def text : Rendered → String
  | done sink => Text.ofBytesLossy sink.written
  | _ => ""

end Rendered
end Stencil
