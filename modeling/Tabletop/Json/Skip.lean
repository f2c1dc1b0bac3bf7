import Tabletop.Json.Token

/-! Passing over a value that nobody asks for. Its words, brackets and escapes have to be in order;
its depth, the size of its numbers and the pairing of its surrogates do not matter. What is left of
the text comes out. -/

namespace Tabletop.Json

/-- Digits, of which there has to be one. -/
def skipDigits (s : List Char) : Reading (List Char) :=
  match s with
  | [] => failNext .invalidNumber []
  | c :: _ => if c.isDigit then .ok (s.dropWhile Char.isDigit) else failNext .invalidNumber s

def skipExponent (s : List Char) : Reading (List Char) :=
  match s with
  | 'e' :: rest => skipSigned rest
  | 'E' :: rest => skipSigned rest
  | _ => .ok s
where
  skipSigned (s : List Char) : Reading (List Char) :=
    match s with
    | '+' :: rest => skipDigits rest
    | '-' :: rest => skipDigits rest
    | _ => skipDigits s

def skipFraction (s : List Char) : Reading (List Char) :=
  match s with
  | '.' :: rest => skipDigits rest
  | _ => .ok s

/-- A number, any sign being read. -/
def skipNumber (s : List Char) : Reading (List Char) := do
  let s ← match s with
    | '0' :: rest => match rest with
      | c :: _ => if c.isDigit then failNext .invalidNumber rest else pure rest
      | [] => pure rest
    | _ => skipDigits s
  skipExponent (← skipFraction s)

/-- An escape, its backslash being read. -/
def skipEscape (s : List Char) : Reading (List Char) :=
  match s with
  | [] => failHere .endInString []
  | c :: rest =>
    if (escapedBy? c).isSome then .ok rest
    else if c = 'u' then (readHex rest).map (·.2)
    else failNext .invalidEscape (c :: rest)

/-- A string up to its closing quote. -/
def skipString : Nat → List Char → Reading (List Char)
  | 0, s => failHere .endInString s
  | _ + 1, [] => failHere .endInString []
  | fuel + 1, c :: rest =>
    if c = '"' then .ok rest
    else if c = '\\' then do skipString fuel (← skipEscape rest)
    else if c.toNat < 0x20 then failHere .controlCharacter (c :: rest)
    else skipString fuel rest

/-- A string, its opening quote being read. -/
def skipText (s : List Char) : Reading (List Char) := skipString (s.length + 1) s

/-- The colon between a key and its value. -/
def skipColon (s : List Char) : Reading (List Char) :=
  match skipSpace s with
  | [] => failNext .endInObject []
  | ':' :: rest => .ok rest
  | more => failNext .expectedColon more

mutual

/-- A value, after any blanks. -/
def skipValue : Nat → List Char → Reading (List Char)
  | 0, s => failNext .endInValue s
  | fuel + 1, s =>
    match skipSpace s with
    | '-' :: rest => skipNumber rest
    | '"' :: rest => skipText rest
    | '[' :: rest => match skipSpace rest with
      | [] => failNext .endInList []
      | ']' :: more => .ok more
      | more => skipItem fuel more
    | '\x7b' :: rest => match skipSpace rest with
      | '\x7d' :: more => .ok more
      | more => skipMember fuel more
    | [] => failNext .endInValue []
    | c :: rest =>
      if c.isDigit then skipNumber (c :: rest) else (readPlain (c :: rest)).map (·.2)

/-- An item, those after it, and the closing bracket. -/
def skipItem : Nat → List Char → Reading (List Char)
  | 0, s => failNext .endInList s
  | fuel + 1, s => do
    match skipSpace (← skipValue fuel s) with
    | [] => failNext .endInList []
    | ',' :: rest => skipItem fuel rest
    | ']' :: rest => return rest
    | more => failNext .expectedListEnd more

/-- A member, those after it, and the closing brace. -/
def skipMember : Nat → List Char → Reading (List Char)
  | 0, s => failNext .endInObject s
  | fuel + 1, s => do
    match skipSpace s with
    | [] => failNext .endInObject []
    | '"' :: rest =>
      match skipSpace (← skipValue fuel (← skipColon (← skipText rest))) with
      | [] => failNext .endInObject []
      | ',' :: rest => skipMember fuel rest
      | '\x7d' :: rest => return rest
      | more => failNext .expectedObjectEnd more
    | more => failNext .keyNotString more

end

/-- Passes over a value. Between two characters there are at most two calls. -/
def skip (s : List Char) : Reading (List Char) := skipValue (2 * s.length + 2) s

end Tabletop.Json
