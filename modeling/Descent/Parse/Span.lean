/-! Ranges of lexeme indices, both ends included. -/
namespace Descent.Parse

structure Span where
  first : Nat
  last : Nat
  deriving DecidableEq, Repr

namespace Span

def single (i : Nat) : Span := ⟨i, i⟩

/-- The span of the lexemes from `start` up to, not including, `stop`; none if there is none. -/
def consumed (start stop : Nat) : Option Span :=
  if start < stop then some ⟨start, stop - 1⟩ else none

/-- The span from `start` to the lexeme `reached`, or to the last of `size` lexemes. -/
def attempted (size start reached : Nat) : Option Span :=
  if start ≤ reached ∧ start < size then some ⟨start, min reached (size - 1)⟩ else none

def length (s : Span) : Nat := s.last - s.first + 1

def text (s : Span) : String := s!"{s.first}..={s.last}"

end Span

end Descent.Parse
