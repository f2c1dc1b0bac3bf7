import Tabletop.Text.Ranges
import Tabletop.Text.UnseenTable

/-! Texts between quotes, with what does not show on its own written out. -/

namespace Tabletop.Text

/-- A character by its code, in lower case and without padding. -/
def byCode (c : Char) : String :=
  "\\u\x7b" ++ String.ofList (Nat.toDigits 16 c.toNat) ++ "\x7d"

def visible (c : Char) : String :=
  match c with
  | '"' => "\\\""
  | '\\' => "\\\\"
  | '\n' => "\\n"
  | '\r' => "\\r"
  | '\t' => "\\t"
  | '\x00' => "\\0"
  | c => if inRanges unseenRanges c then byCode c else c.toString

def quoted (s : String) : String := "\"" ++ String.join (s.toList.map visible) ++ "\""

end Tabletop.Text
