import Tabletop.Json.Shape
import Tabletop.Json.Skip

/-! Reading a text as a document of a shape, in one pass: reading fails at the first character that
no document of the shape can have there. -/

namespace Tabletop.Json

/-- How many arrays and objects may stand inside one another. -/
def deepest : Nat := 127

/-- Fails at a value that is none of what is expected; one without parts is read to its end. -/
def mismatch {α : Type} (expected : String) (s : List Char) : Reading α :=
  match s with
  | '[' :: _ => failHere (.unexpected (.array []) expected) s
  | '\x7b' :: _ => failHere (.unexpected (.object []) expected) s
  | _ => do
    let (d, rest) ← readPlain s
    failHere (.unexpected d expected) rest

/-- A value of a kind, after any blanks. -/
def readKind (kind : Kind) (s : List Char) : Reading (Document × List Char) :=
  match skipSpace s with
  | '[' :: rest => mismatch kind.expected ('[' :: rest)
  | '\x7b' :: rest => mismatch kind.expected ('\x7b' :: rest)
  | more => do
    let (d, rest) ← readPlain more
    if kind.holds d then return (d, rest) else failHere (.unexpected d kind.expected) rest

/-- One of some names, its opening quote being read. -/
def readName (known : List String) (s : List Char) : Reading (String × List Char) := do
  let (name, rest) ← readText s
  if known.contains name then return (name, rest) else failHere (.unknownName name known) rest

/-- The name that is the only key of an object, the brace before it being read. -/
def readNameKey (known : List String) (s : List Char) : Reading (Document × List Char) :=
  match skipSpace s with
  | [] => failNext .endInObject []
  | '"' :: rest => do
    let (name, rest) ← readName known rest
    let (d, rest) ← readKind .nothing (← skipColon rest)
    match skipSpace rest with
    | [] => failHere .endInObject []
    | '\x7d' :: rest => return (.object [(name, d)], rest)
    | more => failHere .expectedValue more
  | '\x7d' :: rest => failNext .expectedValue ('\x7d' :: rest)
  | more => failNext .keyNotString more

/-- The closing bracket of a structure whose fields are all read. -/
def readListEnd (s : List Char) : Reading (List Document × List Char) :=
  match skipSpace s with
  | [] => failNext .endInList []
  | ']' :: rest => .ok ([], rest)
  | ',' :: rest => match skipSpace rest with
    | ']' :: more => failNext .trailingComma (']' :: more)
    | more => failNext .trailingCharacters more
  | more => failNext .trailingCharacters more

/-- What is left of a text at an item of a list, or nothing where the list ends. -/
def nextItem (first : Bool) (s : List Char) : Reading (Bool × List Char) :=
  match skipSpace s with
  | [] => failNext .endInList []
  | ']' :: rest => .ok (false, rest)
  | c :: rest =>
    if first then .ok (true, c :: rest)
    else if c = ',' then
      match skipSpace rest with
      | [] => failNext .endInValue []
      | ']' :: more => failNext .trailingComma (']' :: more)
      | more => .ok (true, more)
    else failNext .expectedListEnd (c :: rest)

/-- The next key of an object, or nothing where the object ends. -/
def nextKey (first : Bool) (s : List Char) : Reading (Option String × List Char) :=
  match skipSpace s with
  | [] => failNext .endInObject []
  | '\x7d' :: rest => .ok (none, rest)
  | c :: rest =>
    if first then
      if c = '"' then key rest else failNext .keyNotString (c :: rest)
    else if c = ',' then
      match skipSpace rest with
      | [] => failNext .endInValue []
      | '"' :: more => key more
      | '\x7d' :: more => failNext .trailingComma ('\x7d' :: more)
      | more => failNext .keyNotString more
    else failNext .expectedObjectEnd (c :: rest)
where
  key (s : List Char) : Reading (Option String × List Char) := do
    let (k, rest) ← readText s
    return (some k, rest)

/-- Fails after a key that came before, or after the object if that ends there. -/
def failRepeated {α : Type} (k : String) (s : List Char) : Reading α :=
  match skipSpace s with
  | '\x7d' :: rest => failHere (.repeated k) rest
  | more => failHere (.repeated k) more

/-- The structure of some members, if it has all that it needs. -/
def recordOfMembers (needed : List (String × Shape)) (members : List (String × Document))
    (rest : List Char) : Reading (Document × List Char) :=
  match needed.find? fun f => (members.lookup f.1).isNone with
  | some f => failHere (.missing f.1) rest
  | none => .ok (.object members, rest)

/-- The structure of some items, if they are enough. -/
def recordOfItems (type : String) (needed optional : List (String × Shape)) (items : List Document)
    (rest : List Char) : Reading (Document × List Char) :=
  if items.length < needed.length then
    let size := needed.length + optional.length
    failHere (.tooShort items.length s!"{type} with {size} elements") rest
  else .ok (.array items, rest)

mutual

/-- A value of a shape, after any blanks. So many containers may still be opened as `room` says;
`around` is the structure that holds the value. -/
def readValue (around : Shape) : Nat → Nat → Shape → List Char → Reading (Document × List Char)
  | 0, _, _, s => failNext .endInValue s
  | fuel + 1, room, shape, s =>
    let s := skipSpace s
    match shape with
    | .plain kind => readKind kind s
    | .same => readValue around fuel room around s
    | .maybe inner => match s with
      | 'n' :: _ => readPlain s
      | _ => readValue around fuel room inner s
    | .any => match s with
      | '[' :: _ => readValue around fuel room (.list .any) s
      | '\x7b' :: _ => readValue around fuel room (.entries .any) s
      | _ => readPlain s
    | .name known => match s with
      | [] => failNext .endInValue []
      | '"' :: rest => do
        let (name, rest) ← readName known rest
        return (.string name, rest)
      | '\x7b' :: rest =>
        if room = 0 then failNext .nestedTooDeep s else readNameKey known rest
      | _ => failNext .expectedValue s
    | .list inner => match s with
      | '[' :: rest =>
        if room = 0 then failNext .nestedTooDeep s
        else do
          let (items, rest) ← readItems around fuel (room - 1) inner true rest
          return (.array items, rest)
      | _ => mismatch "a sequence" s
    | .entries inner => match s with
      | '\x7b' :: rest =>
        if room = 0 then failNext .nestedTooDeep s
        else do
          let (members, rest) ← readEntries around fuel (room - 1) inner true rest
          return (.object members, rest)
      | _ => mismatch "a map" s
    | .record type needed optional =>
      let fields := needed ++ optional
      match s with
      | '[' :: rest =>
        if room = 0 then failNext .nestedTooDeep s
        else do
          let (items, rest) ← readFields shape fuel (room - 1) fields true rest
          recordOfItems type needed optional items rest
      | '\x7b' :: rest =>
        if room = 0 then failNext .nestedTooDeep s
        else do
          let (members, rest) ← readMembers shape fuel (room - 1) fields [] true rest
          recordOfMembers needed members rest
      | _ => mismatch type s

/-- The items of a list and its closing bracket. -/
def readItems (around : Shape) :
    Nat → Nat → Shape → Bool → List Char → Reading (List Document × List Char)
  | 0, _, _, _, s => failNext .endInList s
  | fuel + 1, room, inner, first, s => do
    match ← nextItem first s with
    | (false, rest) => return ([], rest)
    | (true, rest) =>
      let (d, rest) ← readValue around fuel room inner rest
      let (ds, rest) ← readItems around fuel room inner false rest
      return (d :: ds, rest)

/-- The members of an object with any keys, and its closing brace. -/
def readEntries (around : Shape) :
    Nat → Nat → Shape → Bool → List Char → Reading (List (String × Document) × List Char)
  | 0, _, _, _, s => failNext .endInObject s
  | fuel + 1, room, inner, first, s => do
    match ← nextKey first s with
    | (none, rest) => return ([], rest)
    | (some k, rest) =>
      let (d, rest) ← readValue around fuel room inner (← skipColon rest)
      let (ms, rest) ← readEntries around fuel room inner false rest
      return ((k, d) :: ms, rest)

/-- The fields of a structure that is written as a list, up to its closing bracket. -/
def readFields (around : Shape) :
    Nat → Nat → List (String × Shape) → Bool → List Char → Reading (List Document × List Char)
  | 0, _, _, _, s => failNext .endInList s
  | _ + 1, _, [], _, s => readListEnd s
  | fuel + 1, room, field :: fields, first, s => do
    match ← nextItem first s with
    | (false, rest) => return ([], rest)
    | (true, rest) =>
      let (d, rest) ← readValue around fuel room field.2 rest
      let (ds, rest) ← readFields around fuel room fields false rest
      return (d :: ds, rest)

/-- The fields of a structure that is written as an object, up to its closing brace; those in `seen`
came before. -/
def readMembers (around : Shape) :
    Nat → Nat → List (String × Shape) → List String → Bool → List Char →
      Reading (List (String × Document) × List Char)
  | 0, _, _, _, _, s => failNext .endInObject s
  | fuel + 1, room, fields, seen, first, s => do
    match ← nextKey first s with
    | (none, rest) => return ([], rest)
    | (some k, rest) => match fields.lookup k with
      | none => readMembers around fuel room fields seen false (← skip (← skipColon rest))
      | some inner =>
        if seen.contains k then failRepeated k rest
        else
          let (d, rest) ← readValue around fuel room inner (← skipColon rest)
          let (ms, rest) ← readMembers around fuel room fields (k :: seen) false rest
          return ((k, d) :: ms, rest)

end

/-- The document of a shape that a text starts with. Between two characters read there are at most
six calls. -/
def readFirst (shape : Shape) (s : List Char) : Reading (Document × List Char) :=
  readValue shape (6 * s.length + 6) deepest shape s

/-- Passes when nothing but blanks is left. -/
def readEnd (s : List Char) : Reading Unit :=
  match skipSpace s with
  | [] => return
  | more => failNext .trailingCharacters more

end Tabletop.Json
