import Descent.Binary64.Basic
import Descent.Lexeme
import Descent.SymbolTable

/-!
The five tables of a lexical analysis. Words and separators are given; identifiers and numbers are
registered as they occur.
-/
namespace Descent

structure Lexicon where
  words : SymbolTable String
  separators : SymbolTable String
  identifiers : SymbolTable String
  integers : SymbolTable Nat
  reals : SymbolTable Binary64
  deriving DecidableEq, Repr

namespace Lexicon

/-- The lexicon before any text has been read. -/
def seeded (words separators : List String) : Lexicon :=
  { words := .ofList words
    separators := .ofList separators
    identifiers := .empty
    integers := .empty
    reals := .empty }

/-- The text that the table of a lexeme holds for it. Numbers have none. -/
def text? (lexicon : Lexicon) (x : Lexeme) : Option String :=
  match x.category with
  | .word => lexicon.words.get? x.symbol
  | .separator => lexicon.separators.get? x.symbol
  | .identifier => lexicon.identifiers.get? x.symbol
  | .integer | .real => none

/-- A reserved word or, failing that, a separator with the given text. -/
def terminal? (lexicon : Lexicon) (text : String) : Option (Category × Nat) :=
  match lexicon.words.find? text with
  | some i => some (.word, i)
  | none => (lexicon.separators.find? text).map (.separator, ·)

def registerIdentifier (lexicon : Lexicon) (name : String) : Lexicon × Nat :=
  let (table, i) := lexicon.identifiers.register name
  ({ lexicon with identifiers := table }, i)

def registerInteger (lexicon : Lexicon) (value : Nat) : Lexicon × Nat :=
  let (table, i) := lexicon.integers.register value
  ({ lexicon with integers := table }, i)

def registerReal (lexicon : Lexicon) (value : Binary64) : Lexicon × Nat :=
  let (table, i) := lexicon.reals.register value
  ({ lexicon with reals := table }, i)

/-- Whether the character alone is a separator. -/
def separates (lexicon : Lexicon) (c : Char) : Bool :=
  (lexicon.separators.find? c.toString).isSome

end Lexicon

end Descent
