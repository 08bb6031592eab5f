import Stencil.Function
import Stencil.Json
import Stencil.Value.Printing

/-!
# Escapers

The functions that make printed text safe in markup and in script source. An escaper takes any
number of operands and leaves a single operand alone that already has its content type.
-/

namespace Stencil.Builtin

/-- The name of the escaper for markup. -/
def htmlEscaperName : String := "html_template_htmlescaper"

/-- The name of the escaper for one text in markup. -/
def htmlStringEscaperName : String := "html_template_htmlstringescaper"

/-- The name of the escaper for script source. -/
def jsEscaperName : String := "html_template_jsvalescaper"

/-- The name of the escaper for comments. -/
def commentEscaperName : String := "html_template_commentescaper"

/-- A character in the content of an element or in a quoted attribute. -/
def escapeHtmlChar (c : Char) : String :=
  if c = '\x00' then "\uFFFD"
  else if c = '"' then "&#34;"
  else if c = '&' then "&amp;"
  else if c = '\'' then "&#39;"
  else if c = '+' then "&#43;"
  else if c = '<' then "&lt;"
  else if c = '>' then "&gt;"
  else c.toString

/-- Text as the content of an element or of a quoted attribute. -/
def escapeHtml (s : String) : String := String.join (s.toList.map escapeHtmlChar)

/-- Escape operands for markup. -/
def htmlEscaper (schema : Schema) (args : List Value) : Except String Value :=
  match args with
  | [.text .html s] => .ok (.html s)
  | _ =>
    match Value.printedAll schema args with
    | .ok s => .ok (.html (escapeHtml s))
    | .error e => .error e.message

mutual

/-- The datum that stands for a value in script source. -/
def toJson : Value → Except String Json
  | .nil | .nilPtr | .nilBox => .ok .null
  | .bool b => .ok (.bool b)
  | .int i => .ok (.int i)
  | .float x => .ok (if x.isNaN || x.isInfinite then .null else .float x)
  | .text _ s => .ok (.string s)
  | .seq items => (toJsonList items).map .array
  | .map _ entries => (toJsonEntries entries).map fun ms => .object (Entries.ofList ms)
  | .record ty fields _ =>
    (toJsonList fields).map fun js => .object (Entries.ofList (ty.fields.zip js))
  | .ptr v | .box v => toJson v
  | .func _ _ => .error "can't encode func as JavaScript"
  | .stream _ => .error "can't encode stream as JavaScript"

/-- The data that stand for values. -/
def toJsonList : List Value → Except String (List Json)
  | [] => .ok []
  | v :: rest => do
    let j ← toJson v
    let js ← toJsonList rest
    return j :: js

/-- The members that stand for the entries of a map. -/
def toJsonEntries : List (Key × Value) → Except String (List (String × Json))
  | [] => .ok []
  | (k, v) :: rest => do
    let j ← toJson v
    let ms ← toJsonEntries rest
    return (k.display, j) :: ms

end

/-- A character of script data that may stand inside an element: nothing in it can close the
element or start a comment. -/
def escapeScriptChar (c : Char) : String :=
  if c = '<' then "\\u003c"
  else if c = '>' then "\\u003e"
  else if c = '&' then "\\u0026"
  else if c = '\u2028' then "\\u2028"
  else if c = '\u2029' then "\\u2029"
  else c.toString

/-- Script data that may stand inside an element. -/
def escapeScript (s : String) : String := String.join (s.toList.map escapeScriptChar)

/-- The datum that operands stand for: a single one for itself, several for their printed text. -/
def operandsJson (schema : Schema) (args : List Value) : Except String Json :=
  match args with
  | [v] => toJson v
  | _ =>
    match Value.printedAll schema args with
    | .ok s => .ok (.string s)
    | .error e => .error e.message

/-- Escape operands for script source. -/
def jsEscaper (schema : Schema) (args : List Value) : Except String Value :=
  match args with
  | [.text .js s] => .ok (.js s)
  | _ => (operandsJson schema args).map fun j => .js (escapeScript j.render)

/-- All escapers. -/
def escapers (schema : Schema) : List Function := [
  .variadic htmlEscaperName [] (.text .html) fun _ tail => htmlEscaper schema tail,
  .unary htmlStringEscaperName (.text .plain) (.text .html) fun v =>
    .ok (.html (escapeHtml (v.text?.getD ""))),
  .variadic jsEscaperName [] (.text .js) fun _ tail => jsEscaper schema tail,
  .variadic commentEscaperName [] (.text .html) fun _ _ => .ok (.html "")]

end Stencil.Builtin
