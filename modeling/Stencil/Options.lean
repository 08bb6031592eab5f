/-!
# Options

How templates are compiled and rendered. A call may override some of the defaults; what it leaves
out keeps its value.
-/

namespace Stencil

/-- How templates are compiled. -/
structure CompileOptions where
  /-- Evaluate pipelines of constants and pure functions early. -/
  foldConstants : Bool
  /-- Put the text of trivial templates in the place of calls to them. -/
  stitch : Bool
  /-- Run the escaper of comments, which drops them, instead of leaving it out. -/
  dropComments : Bool
deriving DecidableEq, Inhabited

/-- Compile options for a single call. -/
structure CompileOverride where
  foldConstants : Option Bool
  stitch : Option Bool
  dropComments : Option Bool
deriving DecidableEq, Inhabited

namespace CompileOptions

/-- The default compile options. -/
def standard : CompileOptions := ⟨true, true, false⟩

/-- The options with some of them overridden. -/
def override (o : CompileOptions) (c : CompileOverride) : CompileOptions where
  foldConstants := c.foldConstants.getD o.foldConstants
  stitch := c.stitch.getD o.stitch
  dropComments := c.dropComments.getD o.dropComments

end CompileOptions

/-- How templates are rendered. -/
structure RunOptions where
  /-- Reuse machines between the renders of a program. -/
  poolStates : Bool
deriving DecidableEq, Inhabited

/-- Run options for a single call. -/
structure RunOverride where
  poolStates : Option Bool
deriving DecidableEq, Inhabited

namespace RunOptions

/-- The default run options. -/
def standard : RunOptions := ⟨true⟩

/-- The options with some of them overridden. -/
def override (o : RunOptions) (c : RunOverride) : RunOptions :=
  ⟨c.poolStates.getD o.poolStates⟩

end RunOptions
end Stencil
