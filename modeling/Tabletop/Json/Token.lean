import Tabletop.Json.Fault
import Tabletop.Json.Literal

/-! Reading what has no parts: words, numbers and strings. -/

namespace Tabletop.Json

def isSpace (c : Char) : Bool := c == ' ' || c == '\n' || c == '\t' || c == '\r'

def skipSpace (s : List Char) : List Char := s.dropWhile isSpace

/-- The rest of a word whose first letter has been read. -/
def readWord (d : Document) : List Char → List Char → Reading (Document × List Char)
  | [], s => .ok (d, s)
  | _ :: _, [] => failHere .endInValue []
  | c :: more, x :: s => if x = c then readWord d more s else failNext .expectedWord (x :: s)

/-! ### Numbers -/

/-- Exponents that are farther from zero are not told apart. -/
def farthest : Nat := Nat.pow 2 31 - 1

/-- Takes digits into an exponent, and stops after one that takes it too far. -/
def takeExponent (n : Nat) : List Char → Option Nat × List Char
  | [] => (some n, [])
  | c :: rest =>
    if c.isDigit then
      let next := 10 * n + (c.toNat - '0'.toNat)
      if next ≤ farthest then takeExponent next rest else (none, rest)
    else (some n, c :: rest)

/-- The exponent of a number, its letter being read. One that is too far makes the number zero, or
takes it out of range unless its digits are all zeros. -/
def readExponent (zeros : Bool) (s : List Char) : Reading (Int × List Char) :=
  let (negative, s) := match s with
    | '+' :: rest => (false, rest)
    | '-' :: rest => (true, rest)
    | rest => (false, rest)
  match s with
  | [] => failHere .endInValue []
  | c :: _ =>
    if c.isDigit then
      match takeExponent 0 s with
      | (some n, rest) => .ok (if negative then -n else n, rest)
      | (none, rest) =>
        if negative || zeros then .ok (-farthest, rest.dropWhile Char.isDigit)
        else failHere .numberOutOfRange rest
    else failNext .invalidNumber s

/-- The fraction of a number: a point with digits after it, or nothing. -/
def readFraction (s : List Char) : Reading (List Char × List Char) :=
  match s with
  | '.' :: rest =>
    if (rest.takeWhile Char.isDigit).isEmpty then
      failNext (if rest.isEmpty then .endInValue else .invalidNumber) rest
    else .ok (rest.takeWhile Char.isDigit, rest.dropWhile Char.isDigit)
  | _ => .ok ([], s)

/-- The whole digits of a number: a zero alone, or digits that do not start with one. -/
def readWhole (s : List Char) : Reading (List Char × List Char) :=
  match s with
  | [] => failHere .endInValue []
  | '0' :: rest =>
    match rest with
    | c :: _ => if c.isDigit then failNext .invalidNumber rest else .ok (['0'], rest)
    | [] => .ok (['0'], rest)
  | c :: rest =>
    if c.isDigit then .ok (s.takeWhile Char.isDigit, s.dropWhile Char.isDigit)
    else failNext .invalidNumber (c :: rest)

/-- A number, any sign being read. -/
def readNumber (negative : Bool) (s : List Char) : Reading (Document × List Char) := do
  let (whole, s) ← readWhole s
  let (fraction, s) ← readFraction s
  let marked := match s with
    | c :: _ => c == 'e' || c == 'E'
    | [] => false
  let (exponent, s) ←
    if marked then readExponent ((whole ++ fraction).all (· == '0')) (s.drop 1) else .ok (0, s)
  let literal : Literal :=
    { negative, whole, fraction, exponent, integral := fraction.isEmpty && !marked }
  match literal.number with
  | some n => return (.number n, s)
  | none => failHere .numberOutOfRange s

/-! ### Strings -/

def hexDigit? (c : Char) : Option Nat :=
  if '0' ≤ c && c ≤ '9' then some (c.toNat - '0'.toNat)
  else if 'a' ≤ c && c ≤ 'f' then some (c.toNat - 'a'.toNat + 10)
  else if 'A' ≤ c && c ≤ 'F' then some (c.toNat - 'A'.toNat + 10)
  else none

def byteLength (s : List Char) : Nat := s.foldl (fun n c => n + c.utf8Size) 0

/-- Four hexadecimal digits. What stands in their place is four bytes long, whatever its
characters. -/
def readHex (s : List Char) : Reading (Nat × List Char) :=
  match (s.take 4).mapM hexDigit? with
  | some [a, b, c, d] => .ok (((a * 16 + b) * 16 + c) * 16 + d, s.drop 4)
  | _ =>
    if byteLength (s.take 4) < 4 then failHere .endInString []
    else .error ⟨.invalidEscape, s, 4⟩

def isLeading (n : Nat) : Bool := 0xD800 ≤ n && n ≤ 0xDBFF

def isTrailing (n : Nat) : Bool := 0xDC00 ≤ n && n ≤ 0xDFFF

/-- The character of two surrogates. -/
def paired (leading trailing : Nat) : Char :=
  Char.ofNat ((leading - 0xD800) * 0x400 + (trailing - 0xDC00) + 0x10000)

/-- The character of a surrogate that was read, and of the one that has to follow it. -/
def readPartner (leading : Nat) (s : List Char) : Reading (Char × List Char) :=
  match s with
  | [] => failHere .endInString []
  | '\\' :: rest => match rest with
    | [] => failHere .endInString []
    | 'u' :: rest => do
      let (trailing, rest) ← readHex rest
      if isTrailing trailing then return (paired leading trailing, rest)
      else failHere .loneSurrogate rest
    | other => failNext .unpairedSurrogate other
  | other => failNext .unpairedSurrogate other

/-- A character written by its code, the letter `u` being read. -/
def readCode (s : List Char) : Reading (Char × List Char) := do
  let (n, rest) ← readHex s
  if isTrailing n then failHere .loneSurrogate rest
  else if isLeading n then readPartner n rest
  else return (Char.ofNat n, rest)

/-- The character that a letter after a backslash stands for. -/
def escapedBy? (c : Char) : Option Char :=
  match c with
  | '"' => some '"'
  | '\\' => some '\\'
  | '/' => some '/'
  | 'b' => some '\x08'
  | 'f' => some '\x0c'
  | 'n' => some '\n'
  | 'r' => some '\r'
  | 't' => some '\t'
  | _ => none

/-- An escape, its backslash being read. -/
def readEscape (s : List Char) : Reading (Char × List Char) :=
  match s with
  | [] => failHere .endInString []
  | c :: rest => match escapedBy? c with
    | some x => .ok (x, rest)
    | none => if c = 'u' then readCode rest else failNext .invalidEscape (c :: rest)

/-- The characters of a string up to its closing quote, `seen` being those before in reverse
order. -/
def readString : Nat → List Char → List Char → Reading (List Char × List Char)
  | 0, _, s => failHere .endInString s
  | _ + 1, _, [] => failHere .endInString []
  | fuel + 1, seen, c :: rest =>
    if c = '"' then .ok (seen.reverse, rest)
    else if c = '\\' then do
      let (x, rest) ← readEscape rest
      readString fuel (x :: seen) rest
    else if c.toNat < 0x20 then failHere .controlCharacter rest
    else readString fuel (c :: seen) rest

/-- A string, its opening quote being read. -/
def readText (s : List Char) : Reading (String × List Char) := do
  let (cs, rest) ← readString (s.length + 1) [] s
  return (String.ofList cs, rest)

/-- A value without parts, after any blanks. -/
def readPlain (s : List Char) : Reading (Document × List Char) :=
  match skipSpace s with
  | [] => failNext .endInValue []
  | 'n' :: rest => readWord .null ['u', 'l', 'l'] rest
  | 't' :: rest => readWord (.bool true) ['r', 'u', 'e'] rest
  | 'f' :: rest => readWord (.bool false) ['a', 'l', 's', 'e'] rest
  | '-' :: rest => readNumber true rest
  | '"' :: rest => do
    let (text, rest) ← readText rest
    return (.string text, rest)
  | c :: rest =>
    if c.isDigit then readNumber false (c :: rest) else failNext .expectedValue (c :: rest)

end Tabletop.Json
