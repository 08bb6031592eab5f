import Stencil.Builtin.Escape
import Stencil.Compile.Context

/-!
# Escapers in pipelines

Which function, if any, a call of an escaper becomes. An escaper whose operand is known to be safe
already is left out, and one whose operand is known to be a text is replaced by the escaper for
texts. The operand is known when it is the result of the function called right before.
-/

namespace Stencil.Compile

/-- Whether a name is that of an escaper. -/
def isEscaper (name : String) : Bool := "html_".toList.isPrefixOf name.toList

/-- The declared type of the only argument of a call, when the code right before it calls a
function. -/
def knownOperand (t : Tables) (argc : Nat) (f : Fragment) : Option ParamType :=
  if argc = 1 then
    match f.last? with
    | some (.func _ index) => (t.funcs[index]?).map fun g => g.sig.returns
    | _ => none
  else none

/-- The function that a call of an escaper becomes, or nothing if it is left out. -/
def resolveEscaper (options : CompileOptions) (noPrint : Bool) (operand : Option ParamType)
    (name : String) : Option String :=
  if noPrint then none
  else if name = Builtin.commentEscaperName ∧ ¬ options.dropComments then none
  else
    match operand with
    | some .int => none
    | some (.text .plain) =>
      if name = Builtin.htmlEscaperName then some Builtin.htmlStringEscaperName else some name
    | some (.text .html) => if name = Builtin.htmlEscaperName then none else some name
    | some (.text .js) => if name = Builtin.jsEscaperName then none else some name
    | _ => some name

/-- The function that a call of a name becomes, or nothing if it is left out. -/
def resolve (options : CompileOptions) (noPrint : Bool) (operand : Option ParamType)
    (name : String) : Option String :=
  if isEscaper name then resolveEscaper options noPrint operand name else some name

end Stencil.Compile
