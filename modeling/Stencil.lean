import Stencil.Engine
import Stencil.Fragment.Splice
import Stencil.Program.Listing
import Stencil.Report
import Stencil.Session
import Stencil.Tree.Build
import Stencil.Proofs.Effect
import Stencil.Proofs.Execution
import Stencil.Proofs.Layout
import Stencil.Proofs.Calls
import Stencil.Proofs.Failure
import Stencil.Proofs.Balance
import Stencil.Proofs.Neutral
import Stencil.Proofs.Scope
import Stencil.Proofs.Loops
import Stencil.Proofs.Branches
import Stencil.Proofs.Emission
import Stencil.Proofs.WellFormed
import Stencil.Proofs.Constants
import Stencil.Proofs.Pipelines
import Stencil.Proofs.Congruence
import Stencil.Proofs.Statements
import Stencil.Proofs.Actions
import Stencil.Proofs.Branching
import Stencil.Proofs.Nodes
import Stencil.Proofs.Nesting
import Stencil.Proofs.Stitching
import Stencil.Proofs.Programs
import Stencil.Proofs.Safety
import Stencil.Proofs.Placement
import Stencil.Proofs.Sites
import Stencil.Proofs.Control
import Stencil.Proofs.Decisions
import Stencil.Proofs.Lockstep
import Stencil.Proofs.AlikeCode
import Stencil.Proofs.AlikeStatements
import Stencil.Proofs.Folding
import Stencil.Proofs.Evaluation
import Stencil.Proofs.StitchOrder
import Stencil.Proofs.Lexical
import Stencil.Proofs.Variables
import Stencil.Proofs.Scoping
import Stencil.Proofs.Templates
import Stencil.Proofs.Keeping
import Stencil.Proofs.Points
import Stencil.Proofs.BranchScopes
import Stencil.Proofs.Ordered
import Stencil.Proofs.Views
import Stencil.Proofs.FieldAccess
import Stencil.Proofs.Trails
import Stencil.Proofs.Parts
import Stencil.Proofs.Addressability
import Stencil.Proofs.Namespaces
import Stencil.Proofs.Enclosing
import Stencil.Proofs.Arguments
import Stencil.Proofs.Operands
import Stencil.Proofs.Commands
import Stencil.Proofs.Singles
import Stencil.Proofs.CallSites
import Stencil.Proofs.Structure
import Stencil.Proofs.Termination
import Stencil.Proofs.Attribution
import Stencil.Proofs.Positions
import Stencil.Proofs.TablePositions
import Stencil.Proofs.Locating
import Stencil.Proofs.Guards
import Stencil.Proofs.Independence
import Stencil.Proofs.Escapers
import Stencil.Proofs.Registries
import Stencil.Proofs.Resolution
import Stencil.Proofs.ActionSites
import Stencil.Proofs.EscaperCalls
import Stencil.Proofs.PlainCalls
import Stencil.Proofs.LastValues
import Stencil.Proofs.EscaperChoice
import Stencil.Proofs.Truncation
import Stencil.Proofs.DroppedComments
import Stencil.Proofs.Pooling
import Stencil.Proofs.StaticText
import Stencil.Proofs.Assignments
import Stencil.Proofs.Resolvable
import Stencil.Proofs.Suppression
import Stencil.Proofs.Coercion
import Stencil.Proofs.Printing
import Stencil.Proofs.Markup
import Stencil.Proofs.Numerals
import Stencil.Proofs.Reading
import Stencil.Proofs.ScriptData
import Stencil.Proofs.ScriptEscaping
import Stencil.Proofs.Keys
import Stencil.Proofs.Maps
import Stencil.Proofs.Formatting
import Stencil.Proofs.Splicing
import Stencil.Proofs.Accounting
import Stencil.Proofs.Interning
import Stencil.Proofs.Naming
