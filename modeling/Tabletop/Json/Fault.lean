import Tabletop.Json.Document

/-! Why a text cannot be read, and where. The place of a fault is told by what is left of the text
there. -/

namespace Tabletop.Json

/-- What is wrong with a text. -/
inductive Fault where
  | endInList
  | endInObject
  | endInString
  | endInValue
  | expectedColon
  | expectedListEnd
  | expectedObjectEnd
  | expectedWord
  | expectedValue
  | invalidEscape
  | invalidNumber
  | numberOutOfRange
  | controlCharacter
  /-- A surrogate that no second half follows. -/
  | unpairedSurrogate
  /-- A surrogate that is no first half, or whose second half is none. -/
  | loneSurrogate
  | keyNotString
  | trailingComma
  | trailingCharacters
  | nestedTooDeep
  /-- Something else stands where `expected` should. -/
  | unexpected (found : Document) (expected : String)
  | unknownName (name : String) (known : List String)
  | missing (field : String)
  | repeated (field : String)
  | tooShort (length : Nat) (expected : String)

/-- A place in a text: so many bytes into what is left of it. -/
structure Place where
  rest : List Char
  ahead : Nat

structure ReadError where
  fault : Fault
  place : Place

abbrev Reading := Except ReadError

variable {α : Type}

/-- Fails at the present place. -/
def failHere (fault : Fault) (rest : List Char) : Reading α := .error ⟨fault, rest, 0⟩

/-- Fails at the byte to come. -/
def failNext (fault : Fault) (rest : List Char) : Reading α := .error ⟨fault, rest, 1⟩

end Tabletop.Json
