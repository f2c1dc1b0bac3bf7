import Tabletop.Json.Report
import Tabletop.Json.Decode

/-! How the values of a type are written, and reading them from texts. -/

namespace Tabletop

/-- The shape of the texts of a type, and the values of their documents. -/
structure Format (α : Type) where
  shape : Json.Shape
  decode : Decoder α
  /-- What is said of a document of the shape that stands for no value. -/
  refusal : String := "data did not match"

namespace Format

variable {α : Type}

/-- The value that a text spells, or what is wrong with the text. What comes after it is looked at
only once the value is known. -/
def read (f : Format α) (text : String) : Except String α := do
  let refuse := Json.ReadError.message text
  let (d, rest) ← (Json.readFirst f.shape text.toList).mapError refuse
  match f.decode d with
  | none => throw f.refusal
  | some a =>
    (Json.readEnd rest).mapError refuse
    return a

/-- Any value. -/
def json : Format Json := ⟨.any, Decode.json, ""⟩

end Format

end Tabletop
