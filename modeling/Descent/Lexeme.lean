import Descent.Text.Position

/-! Lexemes: the tokens of a source text with their places. -/
namespace Descent

open Text (Position)

/-- The table that a lexeme's symbol indexes. -/
inductive Category where
  | word
  | separator
  | identifier
  | integer
  | real
  deriving DecidableEq, Repr

namespace Category

def isNumber : Category → Bool
  | integer | real => true
  | word | separator | identifier => false

def name : Category → String
  | word => "word"
  | separator => "separator"
  | identifier => "identifier"
  | integer => "integer"
  | real => "real"

end Category

/-- A token on one line, both columns included. -/
structure Lexeme where
  category : Category
  symbol : Nat
  text : String
  line : Nat
  firstColumn : Nat
  lastColumn : Nat
  deriving DecidableEq, Repr

namespace Lexeme

/-- The lexeme whose text begins at `place`. -/
def spanning (category : Category) (symbol : Nat) (text : List Char) (place : Position) : Lexeme :=
  ⟨category, symbol, String.ofList text, place.line, place.column, place.column + text.length - 1⟩

/-- The lexeme that stands in one column whatever its text. -/
def pinned (category : Category) (symbol : Nat) (text : String) (place : Position) : Lexeme :=
  ⟨category, symbol, text, place.line, place.column, place.column⟩

/-- The place of the first character. -/
def first (x : Lexeme) : Position := ⟨x.line, x.firstColumn⟩

/-- The place of the last character. -/
def last (x : Lexeme) : Position := ⟨x.line, x.lastColumn⟩

/-- The place after the last character. -/
def next (x : Lexeme) : Position := ⟨x.line, x.lastColumn + 1⟩

end Lexeme

end Descent
