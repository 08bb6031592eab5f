import Stencil.Decimal.Notation
import Stencil.Entries
import Stencil.Text.Quoted

/-!
# Script data

Data in the notation of scripts: null, truth values, numbers, strings, arrays and objects with
their keys in order.
-/

namespace Stencil

/-- A datum of script source. -/
inductive Json where
  | null
  | bool (b : Bool)
  | int (i : Int64)
  | float (x : Binary64)
  | string (s : String)
  | array (items : List Json)
  | object (members : List (String × Json))
deriving Inhabited

namespace Json

/-- A character inside a string. -/
def stringChar (c : Char) : String :=
  if c = '"' then "\\\""
  else if c = '\\' then "\\\\"
  else if c = '\x08' then "\\b"
  else if c = '\t' then "\\t"
  else if c = '\n' then "\\n"
  else if c = '\x0c' then "\\f"
  else if c = '\r' then "\\r"
  else if c.toNat < 0x20 then "\\u00" ++ Text.hexByte c.toNat.toUInt8
  else c.toString

/-- A string in double quotes. -/
def stringText (s : String) : String := "\"" ++ String.join (s.toList.map stringChar) ++ "\""

mutual

/-- The text of a datum, without blanks. -/
def render : Json → String
  | null => "null"
  | bool b => toString b
  | int i => toString i.toInt
  | float x => NumberStyle.script.format x
  | string s => stringText s
  | array items => "[" ++ ",".intercalate (renderItems items) ++ "]"
  | object members => "\x7b" ++ ",".intercalate (renderMembers members) ++ "\x7d"

/-- The texts of data. -/
def renderItems : List Json → List String
  | [] => []
  | j :: rest => render j :: renderItems rest

/-- The texts of the members of an object. -/
def renderMembers : List (String × Json) → List String
  | [] => []
  | (k, j) :: rest => (stringText k ++ ":" ++ render j) :: renderMembers rest

end

end Json
end Stencil
