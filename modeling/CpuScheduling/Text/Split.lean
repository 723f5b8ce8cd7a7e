/-!
Cutting a text at separators. Lines end at a newline, and one carriage return before it belongs to
the ending; what follows the last newline is a line unless it is empty.
-/
namespace CpuScheduling.Text

/-- A line without the carriage return that its ending may have left. -/
def dropReturn (line : List Char) : List Char :=
  if line.getLast? = some '\r' then line.dropLast else line

/-- The lines of a text, without their endings. -/
def lines (text : List Char) : List (List Char) :=
  let pieces := text.splitOnP (· == '\n')
  pieces.dropLast.map dropReturn ++ (pieces.getLast?.filter (!·.isEmpty)).toList

end CpuScheduling.Text
