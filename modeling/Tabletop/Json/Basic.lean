/-! JSON values. The members of an object stand in the order of their keys, each key once; every
function here that builds an object keeps that, and `Json.Canonical` states it. -/

namespace Tabletop

/-- A number as JSON distinguishes it: an integer literal in the range of 64 bits, or a double. -/
inductive Number where
  | integer (i : Int)
  | double (x : Float)
  deriving BEq, DecidableEq

/-- The double nearest to a number. -/
def Number.toFloat : Number → Float
  | .integer i => Float.ofInt i
  | .double x => x

inductive Json where
  | null
  | bool (b : Bool)
  | number (n : Number)
  | string (s : String)
  | array (items : List Json)
  | object (members : List (String × Json))

instance : Inhabited Json := ⟨.null⟩

namespace Json

/-- Puts a member in its place by key, in place of one with that key. -/
def insertMember (k : String) (v : Json) : List (String × Json) → List (String × Json)
  | [] => [(k, v)]
  | m :: rest =>
    if k < m.1 then (k, v) :: m :: rest
    else if m.1 < k then m :: insertMember k v rest
    else (k, v) :: rest

/-- The members in the order of their keys; of several with one key the last counts. -/
def sortMembers (members : List (String × Json)) : List (String × Json) :=
  members.foldl (fun sorted m => insertMember m.1 m.2 sorted) []

def eraseMember (k : String) (members : List (String × Json)) : List (String × Json) :=
  members.filter fun m => m.1 != k

def member? (k : String) : Json → Option Json
  | object members => members.lookup k
  | _ => none

mutual

/-- The keys of every object are in strictly increasing order. -/
def Canonical : Json → Prop
  | array items => CanonicalItems items
  | object members => members.Pairwise (·.1 < ·.1) ∧ CanonicalMembers members
  | _ => True

def CanonicalItems : List Json → Prop
  | [] => True
  | j :: rest => j.Canonical ∧ CanonicalItems rest

def CanonicalMembers : List (String × Json) → Prop
  | [] => True
  | (_, j) :: rest => j.Canonical ∧ CanonicalMembers rest

end

end Json

end Tabletop
