/-!
Texts widened to a column with spaces; a text that is wider already stays as it is.
-/
namespace CpuScheduling.Text

/-- Left-aligned in a column of `width`. -/
def padRight (width : Nat) (text : String) : String :=
  String.ofList (text.toList.rightpad width ' ')

/-- Right-aligned in a column of `width`. -/
def padLeft (width : Nat) (text : String) : String :=
  String.ofList (text.toList.leftpad width ' ')

/-- A number in at least `width` digits. -/
def zeroPadded (width n : Nat) : String :=
  String.ofList ((Nat.toDigits 10 n).leftpad width '0')

/-- Each text on a line of its own. -/
def unlines (texts : List String) : String := String.join (texts.map (· ++ "\n"))

end CpuScheduling.Text
