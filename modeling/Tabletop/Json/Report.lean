import Tabletop.Json.Reader
import Tabletop.Json.Writer
import Tabletop.Text.Quoted

/-! Faults in words, with the line and the column of their places. -/

namespace Tabletop

/-- A document in words. -/
def Document.described : Document → String
  | .null => "null"
  | .bool b => s!"boolean `{b}`"
  | .number (.integer i) => s!"integer `{i}`"
  | .number (.double x) => s!"floating point `{(Number.double x).text}`"
  | .string s => "string " ++ Text.quoted s
  | .array _ => "sequence"
  | .object _ => "map"

namespace Json

/-- Whether an integer stands where a natural number should, so that not its type is wrong. -/
def isMisvalued : Document → String → Bool
  | .number (.integer _), expected => expected == Kind.count.expected
  | _, _ => false

def Fault.message : Fault → String
  | endInList => "EOF while parsing a list"
  | endInObject => "EOF while parsing an object"
  | endInString => "EOF while parsing a string"
  | endInValue => "EOF while parsing a value"
  | expectedColon => "expected `:`"
  | expectedListEnd => "expected `,` or `]`"
  | expectedObjectEnd => "expected `,` or `\x7d`"
  | expectedWord => "expected ident"
  | expectedValue => "expected value"
  | invalidEscape => "invalid escape"
  | invalidNumber => "invalid number"
  | numberOutOfRange => "number out of range"
  | controlCharacter => "control character (\\u0000-\\u001F) found while parsing a string"
  | unpairedSurrogate => "unexpected end of hex escape"
  | loneSurrogate => "lone leading surrogate in hex escape"
  | keyNotString => "key must be a string"
  | trailingComma => "trailing comma"
  | trailingCharacters => "trailing characters"
  | nestedTooDeep => "recursion limit exceeded"
  | unexpected found expected =>
    let what := if isMisvalued found expected then "value" else "type"
    s!"invalid {what}: {found.described}, expected {expected}"
  | unknownName name known =>
    let listed := ", ".intercalate (known.map fun n => "`" ++ n ++ "`")
    s!"unknown variant `{name}`, expected one of {listed}"
  | missing field => s!"missing field `{field}`"
  | repeated field => s!"duplicate field `{field}`"
  | tooShort length expected => s!"invalid length {length}, expected {expected}"

/-- The line at the end of some bytes, counted from one, and how many bytes it has. -/
def position (bytes : List UInt8) : Nat × Nat :=
  bytes.foldl (fun (line, column) (b : UInt8) =>
    if b = 10 then (line + 1, 0) else (line, column + 1)) (1, 0)

/-- The line of a place in a text, and how many bytes of the line come before it. -/
def Place.position (text : String) (p : Place) : Nat × Nat :=
  let before := text.utf8ByteSize - byteLength p.rest + p.ahead
  Json.position (text.toUTF8.toList.take before)

/-- The message of a fault in a text, with its place. -/
def ReadError.message (text : String) (e : ReadError) : String :=
  let (line, column) := e.place.position text
  s!"{e.fault.message} at line {line} column {column}"

end Json

end Tabletop
