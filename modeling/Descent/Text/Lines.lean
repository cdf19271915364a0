/-!
Lines. A newline ends a line, a carriage return directly before it belongs to the ending, and
nothing after the last newline is no line.
-/
namespace Descent.Text

/-- Drops one carriage return at the end. -/
def dropReturn (line : List Char) : List Char :=
  if line.getLast? = some '\r' then line.dropLast else line

/-- The lines of a text without their endings. A last line that no newline ends keeps its
carriage return. -/
def lines (text : List Char) : List (List Char) :=
  let pieces := text.splitOn '\n'
  pieces.dropLast.map dropReturn ++ (pieces.getLast?.filter (!·.isEmpty)).toList

/-- The text with every line ending turned into one newline and the last one dropped. -/
def unifyLines (text : List Char) : List Char :=
  ['\n'].intercalate (lines text)

end Descent.Text
