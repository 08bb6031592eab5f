import Stencil.Diagnostic
import Stencil.Text.Classes
import Stencil.Text.Width

/-!
# Reports

An error drawn as an excerpt of the template's source text, with the offending token underlined and
the message attached to its middle, followed by advice. Without source text or a place, the report
is the text of the error on one line.
-/

namespace Stencil

/-- The characters a report is drawn with. -/
inductive Charset where
  | unicode
  | ascii
deriving DecidableEq, Inhabited

/-- How a report is drawn. -/
structure ReportStyle where
  /-- Whether parts are coloured with terminal codes. -/
  color : Bool
  /-- The name shown for the source text, by default that of the template. -/
  filename : Option String
  charset : Charset
deriving Inhabited

namespace ReportStyle

/-- The default style. -/
def standard : ReportStyle := ⟨true, none, .unicode⟩

end ReportStyle

namespace Report

/-- The shapes of lines and boxes. -/
structure Glyphs where
  topLeft : Char
  bottomLeft : Char
  bottomRight : Char
  horizontal : Char
  vertical : Char
  underline : Char
  /-- The part of the underline that the message hangs from. -/
  branch : Char

/-- The shapes of a character set. -/
def glyphs : Charset → Glyphs
  | .unicode => ⟨'╭', '╰', '╯', '─', '│', '─', '┬'⟩
  | .ascii => ⟨',', '`', '\'', '-', '|', '^', '|'⟩

/-- The colours of the parts of a report, as terminal codes. -/
inductive Part where
  | severity (s : Severity)
  | margin
  | emptyMargin
  | source
  | label
  | advice

/-- The terminal code of a colour. -/
def Part.code : Part → String
  | severity .error => "31"
  | severity .warning => "33"
  | severity .info => "38;5;147"
  | margin => "38;5;246"
  | emptyMargin => "38;5;240"
  | source => "38;5;249"
  | label => "38;5;155"
  | advice => "38;5;115"

/-- A text in the colour of a part. -/
def paint (style : ReportStyle) (part : Part) (s : String) : String :=
  if style.color then "\x1b[" ++ part.code ++ "m" ++ s ++ "\x1b[0m" else s

/-- The word a report starts with. -/
def heading : Severity → String
  | .error => "Error:"
  | .warning => "Warning:"
  | .info => "Advice:"

/-- Whether a character ends a token: a blank or a delimiter. -/
def endsToken (c : Char) : Bool := Text.isBlank c || ['}', '|', '(', ')'].contains c

/-- The first character and the length of the token at a byte offset. -/
def tokenSpan (source : List Char) (offset : Nat) : Nat × Nat :=
  let offset := min offset (Location.byteSize source)
  match Location.splitAtByte? source offset with
  | none => (0, 1)
  | some (before, after) =>
    (before.length, max 1 (after.takeWhile fun c => !endsToken c).length)

/-- Whether a character ends a line of source text. -/
def isLineEnd (c : Char) : Bool :=
  ['\n', '\r', '\x0b', '\x0c', '\u0085', '\u2028', '\u2029'].contains c

/-- Whether a line ends with a character; a carriage return before a line feed does not end it. -/
def lineEndsAt (c : Char) (rest : List Char) : Bool :=
  isLineEnd c && !(c == '\r' && rest.head? == some '\n')

/-- The lines of a text with the characters that end them. -/
def splitLines : List Char → List (List Char)
  | [] => []
  | c :: rest =>
    if lineEndsAt c rest then [c] :: splitLines rest
    else
      match splitLines rest with
      | [] => [[c]]
      | line :: lines => (c :: line) :: lines

/-- A line of source text: its index, a column in it and its characters. -/
structure Place where
  line : Nat
  column : Nat
  chars : List Char

/-- The line that holds a character of a text; a position behind the text is in the last line. -/
def findLine (line column : Nat) : List (List Char) → Place
  | [] => ⟨line, column, []⟩
  | [chars] => ⟨line, column, chars⟩
  | chars :: rest =>
    if column < chars.length then ⟨line, column, chars⟩
    else findLine (line + 1) (column - chars.length) rest

/-- The characters of a line without the blanks at its end. -/
def trimEnd (chars : List Char) : List Char := (chars.reverse.dropWhile Text.isBlank).reverse

/-- How a character in a column is shown, and in how many columns. Tabs fill up to a multiple of
four characters. -/
def charCell (c : Char) (column : Nat) : Char × Nat :=
  if c = '\t' then (' ', (column / 4 + 1) * 4 - column)
  else if Text.isBlank c then (' ', 1)
  else (c, Text.columnWidth c)

/-- The width of a column of a line; columns behind the line have width one. -/
def columnWidth (chars : List Char) (column : Nat) : Nat :=
  match chars[column]? with
  | some c => (charCell c column).2
  | none => 1

/-- A shape drawn over `width` columns, with another one from the second column on. -/
def spread (width : Nat) (first tail : String) : String :=
  match width with
  | 0 => ""
  | width + 1 => first ++ String.join (List.replicate width tail)

/-- The label of a line: the first column, the number of columns, and the column that the message
hangs from. -/
structure Label where
  first : Nat
  size : Nat

namespace Label

/-- The column in the middle. -/
def middle (l : Label) : Nat := l.first + l.size / 2

/-- Whether a column is labelled. -/
def covers (l : Label) (column : Nat) : Bool := l.first ≤ column && column < l.first + l.size

/-- The number of columns drawn below the line. -/
def drawn (l : Label) : Nat := l.first + l.size + 2

end Label

/-- One character of source text. -/
def sourceCell (style : ReportStyle) (l : Label) (column : Nat) (c : Char) : String :=
  let part := if l.covers column then Part.label else Part.source
  let (shown, width) := charCell c column
  let painted := paint style part shown.toString
  if Text.isBlank c then spread width painted painted else painted

/-- A column of the underline. -/
def underlineCell (style : ReportStyle) (l : Label) (chars : List Char) (column : Nat) : String :=
  let g := glyphs style.charset
  let line := paint style .label g.underline.toString
  let width := columnWidth chars column
  if column = l.middle then spread width (paint style .label g.branch.toString) line
  else if l.covers column then spread width line line
  else spread width " " " "

/-- A column of the line that leads to the message. -/
def arrowCell (style : ReportStyle) (l : Label) (chars : List Char) (column : Nat) : String :=
  let g := glyphs style.charset
  let line := paint style .label g.horizontal.toString
  let width := columnWidth chars column
  if column = l.middle then spread width (paint style .label g.bottomLeft.toString) line
  else if l.middle < column then spread width line line
  else spread width " " " "

/-- The margin of a line of the report; only lines of source text are numbered. -/
def margin (style : ReportStyle) (width : Nat) (number : Option String) : String :=
  let bar := (glyphs style.charset).vertical.toString
  match number with
  | some n => " " ++ paint style .margin (n ++ " " ++ bar) ++ " "
  | none =>
    " " ++ paint style .emptyMargin (String.ofList (List.replicate (width + 1) ' ') ++ bar) ++ " "

/-- The excerpt of the line that holds the token, underlined and with the message. -/
def excerpt (style : ReportStyle) (number : String) (place : Place) (size : Nat)
    (message : String) : String :=
  let empty := margin style number.length none
  let l : Label := ⟨place.column, size⟩
  if place.chars.length < place.column + size then empty ++ "\n"
  else
    let chars := trimEnd place.chars
    let columns := List.range l.drawn
    margin style number.length (some number) ++
      String.join (chars.zipIdx.map fun (c, column) => sourceCell style l column c) ++ "\n" ++
      empty ++ String.join (columns.map (underlineCell style l chars)) ++ "\n" ++
      empty ++ String.join (columns.map (arrowCell style l chars)) ++ " " ++ message ++ "\n"

/-- The lines of a message. A line feed ends a line, together with a carriage return right before
it. -/
def messageLines : List Char → List String
  | [] => []
  | '\n' :: rest => "" :: messageLines rest
  | '\r' :: '\n' :: rest => "" :: messageLines rest
  | c :: rest =>
    match messageLines rest with
    | [] => [c.toString]
    | line :: lines => (c.toString ++ line) :: lines

/-- One piece of advice. Its further lines are aligned with the first one. -/
def adviceLines (style : ReportStyle) (width : Nat) (text : String) : String :=
  let empty := margin style width none
  match messageLines text.toList with
  | [] => empty ++ "\n"
  | first :: rest =>
    empty ++ "\n" ++ empty ++ paint style .advice "Help" ++ ": " ++ first ++ "\n" ++
      String.join (rest.map fun line => empty ++ "      " ++ line ++ "\n")

/-- The report of a diagnostic about the token at a byte offset of a source text. -/
def ofDiagnostic (style : ReportStyle) (filename source : String) (offset : Nat)
    (d : Diagnostic) : String :=
  let g := glyphs style.charset
  let (first, size) := tokenSpan source.toList offset
  let place := findLine 0 first (splitLines source.toList)
  let number := toString (place.line + 1)
  let indent := String.ofList (List.replicate (number.length + 2) ' ')
  let edge (s : String) := paint style .margin s
  paint style (.severity d.severity) (heading d.severity) ++ " " ++ d.message ++ "\n" ++
    indent ++ edge g.topLeft.toString ++ edge g.horizontal.toString ++ edge "[" ++
    " " ++ filename ++ ":" ++ number ++ ":" ++ toString (place.column + 1) ++ " " ++
    edge "]" ++ "\n" ++
    indent ++ edge g.vertical.toString ++ "\n" ++
    excerpt style number place size d.message ++
    String.join (d.help.map (adviceLines style number.length)) ++
    edge (String.ofList (List.replicate (number.length + 2) g.horizontal ++ [g.bottomRight])) ++
    "\n"

/-- The report of an error. -/
def ofError (style : ReportStyle) (e : EngineError) : String :=
  match e.source?, e.location? with
  | some source, some loc =>
    ofDiagnostic style (style.filename.getD loc.template) source loc.offset e.diagnostic
  | _, _ => e.display ++ "\n"

end Report
end Stencil
