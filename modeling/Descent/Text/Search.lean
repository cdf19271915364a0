/-! First occurrences of one text in another. -/
namespace Descent.Text

/-- The offset at which `pattern` first occurs. The empty pattern occurs at once. -/
def occurrence? (pattern : List Char) : List Char → Option Nat
  | [] => if pattern.isEmpty then some 0 else none
  | c :: rest =>
    if pattern.isPrefixOf (c :: rest) then some 0 else (occurrence? pattern rest).map (· + 1)

end Descent.Text
