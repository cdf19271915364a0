import Descent.Text.Words

/-!
Language descriptions as they are written: what the lexer is told, and the grammar in its textual
form.
-/
namespace Descent

/-- A comment reaches from `opening` to `closing`. -/
structure CommentStyle where
  opening : String
  closing : String
  deriving DecidableEq, Repr

/-- A run of tokens and what stands in its place after lexing. Both sides list token texts
separated by blanks. -/
structure Substitution where
  found : String
  replacement : String
  deriving DecidableEq, Repr

namespace Substitution

/-- The token texts that are looked for. -/
def pattern (s : Substitution) : List String := Text.splitWords s.found

/-- The token texts that take their place. -/
def result (s : Substitution) : List String := Text.splitWords s.replacement

def isIdentity (s : Substitution) : Bool := s.pattern = s.result

end Substitution

/-- What the lexer is told. -/
structure LexicalRules where
  words : List String := []
  separators : List String := []
  comments : List CommentStyle := []
  substitutions : List Substitution := []
  deriving DecidableEq, Repr

/-- A nonterminal and the text of its variants. -/
structure RuleText where
  name : String
  body : String
  deriving DecidableEq, Repr

/-- A grammar in its textual form. -/
structure GrammarText where
  main : String
  rules : List RuleText := []
  deriving DecidableEq, Repr

structure Description where
  lexical : LexicalRules := {}
  grammar : GrammarText
  deriving DecidableEq, Repr

end Descent
