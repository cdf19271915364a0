import Descent.Grammar.Compile
import Descent.Lexing.Tokenize
import Descent.Parse.Rules

/-! Languages, and the analysis of source texts: lexing and parsing in one. -/
namespace Descent

open Parse (Tree)

/-- The result of an analysis. The lexicon is the one that the lexemes refer to. -/
structure Analysis where
  lexemes : List Lexeme
  tree : Tree
  fault : Option Lexing.Fault
  lexicon : Lexicon
  events : List Event

namespace Analysis

def isSuccess (a : Analysis) : Bool := a.fault.isNone && a.tree.isSuccess

end Analysis

/-- A lexical fault makes the root a failure and takes the place of its message. -/
def Parse.Tree.withFault (t : Tree) : Option Lexing.Fault → Tree
  | none => t
  | some f => { t with root := { t.root with verdict := .failure, error := some f.message } }

/-- Tokenizes and parses a source text. After a lexical fault, the lexemes before it are parsed. -/
def analyze (rules : LexicalRules) (grammar : Grammar) (lexicon : Lexicon) (source : String) :
    Option Analysis :=
  let lexed := Lexing.tokenize rules lexicon source
  (Parse.parse grammar lexed.lexicon lexed.lexemes).map fun parsed =>
    { lexemes := lexed.lexemes
      tree := parsed.tree.withFault lexed.fault
      fault := lexed.fault
      lexicon := lexed.lexicon
      events := lexed.events ++ parsed.events }

/-- Lexical rules with a grammar over their words and separators. -/
structure Language where
  lexical : LexicalRules
  grammar : Grammar

namespace LexicalRules

/-- The lexicon that holds the words and separators. -/
def lexicon (rules : LexicalRules) : Lexicon := .seeded rules.words rules.separators

end LexicalRules

namespace Language

/-- The lexicon of a language before any text has been read. -/
def lexicon (l : Language) : Lexicon := l.lexical.lexicon

def ofDescription (d : Description) : Except Grammar.Fault Language :=
  (Grammar.compile d.lexical.lexicon d.grammar).map (⟨d.lexical, ·⟩)

/-- Analyzes one source text with a lexicon of its own. -/
def analyze (l : Language) (source : String) : Option Analysis :=
  Descent.analyze l.lexical l.grammar l.lexicon source

end Language

end Descent
