import CpuScheduling.Text.Blank
import CpuScheduling.Text.Unprintable
/-!
Quoted texts. A text stands between double quotes; the quote, the backslash and four controls are
written with a backslash and a letter, and every other character that would not show is written by
its code point in hexadecimal.
-/
namespace CpuScheduling.Text

def isUnprintable (c : Char) : Bool := inRanges unprintableRanges c.toNat

/-- How one character is written between quotes. -/
def quoteChar (c : Char) : String :=
  match c with
  | '\x00' => "\\0"
  | '\t' => "\\t"
  | '\n' => "\\n"
  | '\r' => "\\r"
  | '"' => "\\\""
  | '\\' => "\\\\"
  | c =>
    if isUnprintable c then "\\u\x7b" ++ String.ofList (Nat.toDigits 16 c.toNat) ++ "\x7d"
    else String.singleton c

def quote (text : String) : String := "\"" ++ String.join (text.toList.map quoteChar) ++ "\""

end CpuScheduling.Text
