/-!
Texts compared without regard to case. Only the twenty-six letters of ASCII have a case here.
-/
namespace CpuScheduling.Text

/-- Whether two texts are equal up to the case of ASCII letters. -/
def sameLetters (a b : List Char) : Bool := a.map Char.toLower == b.map Char.toLower

end CpuScheduling.Text
