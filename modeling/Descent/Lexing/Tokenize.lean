import Descent.Lexing.Comments
import Descent.Lexing.Scan
import Descent.Lexing.Substitute
import Descent.Text.Lines

/-! Lexical analysis of a source text: line endings, comments, the scan, substitutions. -/
namespace Descent.Lexing

/-- The outcome of a lexical analysis. With a fault, the lexemes are those there were when it
arose. -/
structure Lexed where
  lexemes : List Lexeme
  lexicon : Lexicon
  fault : Option Fault
  events : List Event

/-- The report of an analysis that came to its end. -/
def lexedEvent (lexemes : List Lexeme) (lexicon : Lexicon) : Event :=
  .lexed lexemes.length lexicon.identifiers.size lexicon.integers.size lexicon.reals.size

/-- Identifiers and numbers are registered in the lexicon, which holds the words and separators
already. -/
def tokenize (rules : LexicalRules) (lexicon : Lexicon) (source : String) : Lexed :=
  match stripComments rules.comments (Text.unifyLines source.toList) with
  | .error f => ⟨[], lexicon, some f, []⟩
  | .ok text =>
    let scanned := scan lexicon .start text
    match scanned.fault with
    | some f =>
      ⟨scanned.lexemes, scanned.lexicon, some f, [.lexingStopped scanned.lexemes.length f]⟩
    | none =>
      let r := substitute scanned.lexicon rules.substitutions scanned.lexemes
      match r.fault with
      | some f => ⟨r.lexemes, scanned.lexicon, some f, r.events⟩
      | none =>
        ⟨r.lexemes, scanned.lexicon, none, r.events ++ [lexedEvent r.lexemes scanned.lexicon]⟩

end Descent.Lexing
