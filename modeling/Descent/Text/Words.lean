import Descent.Text.Blank

/-! Texts cut at blanks. -/
namespace Descent.Text

/-- The maximal runs of characters that are not blank. -/
def words (text : List Char) : List (List Char) :=
  (text.splitOnP isBlank).filter (!·.isEmpty)

/-- The words of a string, each a string. -/
def splitWords (text : String) : List String :=
  (words text.toList).map String.ofList

/-- The text without the blanks at its two ends. -/
def trim (text : String) : String :=
  String.ofList ((text.toList.dropWhile isBlank).reverse.dropWhile isBlank).reverse

end Descent.Text
