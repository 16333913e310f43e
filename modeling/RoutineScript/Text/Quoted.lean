/-
Quoted text as diagnostics show it: the text between double quotes, with
whatever could not be seen or would end the quote written as an escape.
The usual control characters have short escapes, the rest are written by
their code point in hexadecimal.
-/
import RoutineScript.Text.Classes
import RoutineScript.Text.Unprintable

namespace RoutineScript.Text

/-- Whether a character shows nothing of its own on the page. -/
def isUnprintable (c : Char) : Bool :=
  c.toNat < 0x20 || c.toNat == 0x7F ||
    (decide (0x80 ≤ c.toNat) && inRanges c.toNat unprintableRanges)

/-- One character inside double quotes. -/
def quotedChar (c : Char) : String :=
  match c with
  | '\x00' => "\\0"
  | '\t' => "\\t"
  | '\n' => "\\n"
  | '\r' => "\\r"
  | '"' => "\\\""
  | '\\' => "\\\\"
  | c =>
    if isUnprintable c then
      "\\u\x7b" ++ String.ofList (Nat.toDigits 16 c.toNat) ++ "\x7d"
    else
      String.singleton c

/-- A text between double quotes, every character of it visible. -/
def quoted (text : String) : String :=
  "\"" ++ String.join (text.toList.map quotedChar) ++ "\""

/-- Several quoted texts between brackets. -/
def quotedList (texts : List String) : String :=
  "[" ++ ", ".intercalate (texts.map quoted) ++ "]"

end RoutineScript.Text
