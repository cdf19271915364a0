/-! Places in a text: lines and columns from one, counted in characters. -/
namespace Descent.Text

structure Position where
  line : Nat
  column : Nat
  deriving DecidableEq, Repr

namespace Position

def start : Position := ⟨1, 1⟩

/-- The place after `c`. -/
def advance (p : Position) (c : Char) : Position :=
  if c = '\n' then ⟨p.line + 1, 1⟩ else ⟨p.line, p.column + 1⟩

/-- The place reached over `text` from the start. -/
def after (text : List Char) : Position := text.foldl advance start

end Position

end Descent.Text
