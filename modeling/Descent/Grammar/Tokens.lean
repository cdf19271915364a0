import Descent.Grammar.Basic
import Descent.Text.Words

/-!
Tokens of a variant's text. Brackets stand alone; a reference in braces is cut off from its
neighbors; all else is cut at blanks only.
-/
namespace Descent.Grammar

/-- After these characters a token ends. -/
def endsToken (c : Char) : Bool := c = '[' || c = ']' || c = '}'

/-- Before these characters a token ends. -/
def beginsToken (c : Char) : Bool := c = '[' || c = ']' || c = '{'

/-- Whether two neighbors in a word belong to one token. -/
def joined (c d : Char) : Bool := !endsToken c && !beginsToken d

/-- The tokens of a variant's text. -/
def tokens (text : List Char) : List String :=
  (Text.words text).flatMap fun word => (word.splitBy joined).map String.ofList

/-- The token that refers to a name. -/
def reference (name : String) : String := "\x7b" ++ name ++ "\x7d"

/-- The name that a token refers to, if it is a name in braces. Empty braces refer to nothing. -/
def referenced? (token : String) : Option String :=
  match token.toList with
  | [] => none
  | c :: rest =>
    if c = '{' ∧ rest.getLast? = some '}' ∧ rest.dropLast ≠ [] then
      some (String.ofList rest.dropLast)
    else none

mutual

/-- The tokens that stand for an item. -/
def Item.tokens : Item → List String
  | .terminal t => [t]
  | .lexical c => [reference c.name]
  | .rule name => [reference name]
  | .many body => "[" :: (itemTokens body ++ ["]"])

/-- The tokens that stand for a sequence of items. -/
def itemTokens : List Item → List String
  | [] => []
  | i :: rest => i.tokens ++ itemTokens rest

end

end Descent.Grammar
