import Tabletop.Json.Document
import Tabletop.Decimal.Layout

/-! Writing documents, on one line or indented by two spaces. Within a string only the quote, the
backslash and the control characters below U+0020 are escaped. -/

namespace Tabletop

def Number.text : Number → String
  | .integer i => toString i
  | .double x => Decimal.notated.render x

namespace Document

/-- A control character by its code, with two digits in lower case. -/
def escapedControl (c : Char) : List Char :=
  let digits := Nat.toDigits 16 c.toNat
  '\\' :: 'u' :: (List.replicate (4 - digits.length) '0' ++ digits)

def escaped (c : Char) : List Char :=
  if c = '"' then ['\\', '"']
  else if c = '\\' then ['\\', '\\']
  else if c = '\n' then ['\\', 'n']
  else if c = '\r' then ['\\', 'r']
  else if c = '\t' then ['\\', 't']
  else if c.toNat = 8 then ['\\', 'b']
  else if c.toNat = 12 then ['\\', 'f']
  else if c.toNat < 0x20 then escapedControl c
  else [c]

/-- A string between quotes. -/
def quoted (s : String) : String := String.ofList ('"' :: (s.toList.flatMap escaped ++ ['"']))

mutual

/-- The text without any blank. -/
def compact : Document → String
  | null => "null"
  | bool true => "true"
  | bool false => "false"
  | number n => n.text
  | string s => quoted s
  | array items => "[" ++ compactItems items ++ "]"
  | object members => "\x7b" ++ compactMembers members ++ "\x7d"

def compactItems : List Document → String
  | [] => ""
  | [d] => d.compact
  | d :: rest => d.compact ++ "," ++ compactItems rest

def compactMembers : List (String × Document) → String
  | [] => ""
  | [(k, d)] => quoted k ++ ":" ++ d.compact
  | (k, d) :: rest => quoted k ++ ":" ++ d.compact ++ "," ++ compactMembers rest

end

/-- A new line at a depth. -/
def newline (depth : Nat) : String := "\n" ++ String.ofList (List.replicate (2 * depth) ' ')

mutual

/-- The indented text, the first line standing at `depth`. -/
def indented (depth : Nat) : Document → String
  | array (d :: rest) =>
    "[" ++ newline (depth + 1) ++ indentedItems (depth + 1) (d :: rest) ++ newline depth ++ "]"
  | object (m :: rest) =>
    "\x7b" ++ newline (depth + 1) ++ indentedMembers (depth + 1) (m :: rest) ++ newline depth ++
      "\x7d"
  | array [] => "[]"
  | object [] => "\x7b\x7d"
  | null => "null"
  | bool true => "true"
  | bool false => "false"
  | number n => n.text
  | string s => quoted s

def indentedItems (depth : Nat) : List Document → String
  | [] => ""
  | [d] => d.indented depth
  | d :: rest => d.indented depth ++ "," ++ newline depth ++ indentedItems depth rest

def indentedMembers (depth : Nat) : List (String × Document) → String
  | [] => ""
  | [(k, d)] => quoted k ++ ": " ++ d.indented depth
  | (k, d) :: rest =>
    quoted k ++ ": " ++ d.indented depth ++ "," ++ newline depth ++ indentedMembers depth rest

end

/-- The indented text. -/
def pretty (d : Document) : String := d.indented 0

end Document

/-- The text of a value, without any blank. -/
def Json.text (j : Json) : String := (Document.ofJson j).compact

end Tabletop
