import Stencil.Value.Text

/-!
# Formatting

Format strings with directives such as `%d` or `%.2f`. A format is first cut into pieces; each
directive but `%%` then takes one operand. Operands that are missing, left over or of the wrong
type are reported inside the result.
-/

namespace Stencil.Builtin

/-- A piece of a format. -/
inductive Piece where
  | literal (c : Char)
  | directive (precision : Option Nat) (verb : Char)
  /-- The format ends inside a directive. -/
  | unfinished
deriving DecidableEq, Inhabited

/-- Where in a format the scan stands. -/
inductive ScanState where
  | text
  | percent
  | precision (n : Nat)
deriving DecidableEq, Inhabited

/-- A precision as far as it fits a machine word; a larger one counts as none. -/
def clampPrecision (n : Nat) : Nat := if n < Nat.pow 2 64 then n else 0

/-- The pieces of the rest of a format. -/
def scanFormat : ScanState → List Char → List Piece
  | .text, [] => []
  | _, [] => [.unfinished]
  | .text, c :: rest =>
    if c = '%' then scanFormat .percent rest else .literal c :: scanFormat .text rest
  | .percent, c :: rest =>
    if c = '.' then scanFormat (.precision 0) rest
    else .directive none c :: scanFormat .text rest
  | .precision n, c :: rest =>
    if c.isDigit then scanFormat (.precision (10 * n + (c.toNat - '0'.toNat))) rest
    else .directive (some (clampPrecision n)) c :: scanFormat .text rest

/-- An integer in hexadecimal; a negative one as a 64-bit word. -/
def hexInt (i : Int64) : String := Text.hexText i.toUInt64.toNat

/-- The bytes of a text in hexadecimal. -/
def hexBytes (s : String) : String := String.join (s.toUTF8.toList.map Text.hexByte)

/-- An operand that does not fit its verb. -/
def badOperand (schema : Schema) (verb : Char) (v : Value) : String :=
  "%!" ++ verb.toString ++ "(" ++ v.typeName ++ "=" ++ v.display schema ++ ")"

/-- An operand, out of its box, as its directive asks for. -/
def formatOperand (schema : Schema) (precision : Option Nat) (verb : Char) (v : Value) : String :=
  match verb, v with
  | 'v', _ => v.display schema
  | 's', _ => v.display schema
  | 'd', .int i => toString i.toInt
  | 'f', .float x => Decimal.fixedText (precision.getD 6) x
  | 'f', .int i => Decimal.fixedText (precision.getD 6) (.ofInt64 i)
  | 'q', .text _ s => Text.quoted s
  | 't', .bool b => toString b
  | 'x', .int i => hexInt i
  | 'x', .text _ s => hexBytes s
  | _, _ => badOperand schema verb v

/-- The text of pieces, and the operands they leave over. -/
def formatPieces (schema : Schema) : List Piece → List Value → String × List Value
  | [], args => ("", args)
  | .literal c :: rest, args =>
    let (s, left) := formatPieces schema rest args
    (c.toString ++ s, left)
  | .unfinished :: rest, args =>
    let (s, left) := formatPieces schema rest args
    ("%!(NOVERB)" ++ s, left)
  | .directive precision verb :: rest, args =>
    if verb = '%' then
      let (s, left) := formatPieces schema rest args
      ("%" ++ s, left)
    else
      match args with
      | [] =>
        let (s, left) := formatPieces schema rest []
        ("%!" ++ verb.toString ++ "(MISSING)" ++ s, left)
      | v :: args =>
        let (s, left) := formatPieces schema rest args
        (formatOperand schema precision verb v.unboxed ++ s, left)

/-- The report of operands that no directive took. -/
def extraOperands (schema : Schema) (args : List Value) : String :=
  if args.isEmpty then ""
  else
    "%!(EXTRA " ++
      ", ".intercalate (args.map fun v => v.typeName ++ "=" ++ v.display schema) ++ ")"

/-- Format operands. -/
def sprintf (schema : Schema) (format : String) (args : List Value) : String :=
  let (s, left) := formatPieces schema (scanFormat .text format.toList) args
  s ++ extraOperands schema left

end Stencil.Builtin
