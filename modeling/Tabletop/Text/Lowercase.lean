import Tabletop.Text.CaseTable
import Tabletop.Text.Ranges

/-! Lower case for every letter of Unicode. A dotted capital I keeps its dot as a mark of its own,
and a capital sigma at the end of a word takes its final form. -/

namespace Tabletop.Text

namespace CaseRun

def holds (r : CaseRun) (n : Nat) : Bool :=
  r.first ≤ n && n ≤ r.last && (n - r.first) % r.stride == 0

end CaseRun

/-- Whether the first character that is not passed over is cased. -/
def startsCased (s : List Char) : Bool :=
  match s.dropWhile (inRanges caseIgnorableRanges) with
  | [] => false
  | c :: _ => inRanges casedRanges c

/-- The lower form of one character on its own. -/
def lowercaseChar (c : Char) : List Char :=
  if c.toNat < 0x80 then [c.toLower]
  else if c.toNat = 0x130 then ['i', '\u0307']
  else match caseRuns.find? (·.holds c.toNat) with
    | some r => [Char.ofNat (c.toNat + r.offset).toNat]
    | none => [c]

/-- The lower form of a text, given the characters before it, last one first. -/
def lowercaseAfter (before : List Char) : List Char → List Char
  | [] => []
  | c :: rest =>
    let lower :=
      if c = 'Σ' then
        if startsCased before && !startsCased rest then ['ς'] else ['σ']
      else lowercaseChar c
    lower ++ lowercaseAfter (c :: before) rest

/-- The lower form of a text. -/
def lowercase (s : String) : String := String.ofList (lowercaseAfter [] s.toList)

end Tabletop.Text
