import Tabletop.Graph.Flat
import Tabletop.Digest.Sha256

/-! Graphs as they are stored: in either form, within a record that carries a version, and the
hashes and stamps by which a stored one is known. -/

namespace Tabletop

/-- A graph in either form. -/
inductive StoredGraph where
  | flat (f : FlatGraph)
  | nested (g : Graph)

namespace StoredGraph

def toGraph : StoredGraph → Except GraphError Graph
  | flat f => f.toGraph
  | nested g => .ok g

def encode : StoredGraph → Document
  | flat f => f.encode
  | nested g => g.encode

/-- The flat form where it fits, else the nested one. -/
def decode : Decoder StoredGraph :=
  Decode.either (fun d => return flat (← FlatGraph.decode d))
    (fun d => return nested (← Graph.decode d))

/-- All of a text is read before either form is looked for. -/
def format : Format StoredGraph := {
  shape := .any
  decode
  refusal := "data did not match any variant of untagged enum SerializedGraph" }

end StoredGraph

/-- What an object stores of its behavior. -/
structure BehaviorRecord where
  version : Nat
  graph : StoredGraph

namespace BehaviorRecord

/-- A record of a graph, which it keeps in the flat form. -/
def ofGraph (version : Nat) (g : Graph) : BehaviorRecord := ⟨version, .flat (.ofGraph g)⟩

def encode (r : BehaviorRecord) : Document :=
  .object [("lastModified", .ofNat r.version), ("graph", r.graph.encode)]

def shape : Json.Shape :=
  .record "struct BehaviorRecord" [("lastModified", .count), ("graph", .any)] []

def decode : Decoder BehaviorRecord := fun d => do
  let f ← Decode.fields shape.declared d
  let version ← f.need "lastModified" Decode.count
  return ⟨version, ← f.need "graph" StoredGraph.decode⟩

def format : Format BehaviorRecord := { shape, decode }

/-- The record stored in a value. -/
def ofJson (j : Json) : Except GraphError BehaviorRecord :=
  match decode (.ofJson j) with
  | some r => .ok r
  | none => .error .malformed

/-- The value that stores a record. -/
def toJson (r : BehaviorRecord) : Json := r.encode.toJson

end BehaviorRecord

/-- The bytes of a hash. -/
abbrev Hash := List UInt8

/-- A function from texts, as bytes, to hashes. -/
abbrev Hasher := List UInt8 → Hash

/-- What the hash of a graph covers: its nested text, then each global after a zero byte. -/
def Graph.hashed (g : Graph) (globals : List String) : List UInt8 :=
  g.text.toUTF8.toList ++ globals.flatMap fun id => 0 :: id.toUTF8.toList

/-- The hash of a stored value. -/
def payloadHash (j : Json) : Hash := Digest.sha256 j.text.toUTF8.toList

/-- By what a stored record is known: its version where that is readable, else the hash of all of
it. -/
inductive RecordStamp where
  | version (n : Nat)
  | payload (hash : Hash)
  deriving DecidableEq

namespace RecordStamp

def ofJson (j : Json) : RecordStamp :=
  match j.member? "lastModified" with
  | some (.number (.integer (.ofNat n))) => version n
  | _ => payload (payloadHash j)

/-- Whether a record still has to be processed after the one stamped `seen`: versions only move
forward, and all else counts as new when it differs. -/
def supersedes : RecordStamp → RecordStamp → Bool
  | version next, version seen => seen < next
  | next, seen => next != seen

end RecordStamp

end Tabletop
