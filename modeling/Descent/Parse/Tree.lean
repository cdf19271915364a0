import Descent.Lexeme
import Descent.Parse.Span
import Descent.Verdict

/-! Parse trees: what was matched, and what was attempted in vain. -/
namespace Descent.Parse

open Text (Position)

/-- A rule, a variant of a rule or a lexeme. Its children are what it is made of, in order. -/
structure Node where
  description : String
  verdict : Verdict := .pending
  span : Option Span := none
  children : List Node := []
  error : Option String := none

/-- From the first character of a range of lexemes to the last. -/
structure Location where
  first : Position
  last : Position
  deriving DecidableEq, Repr

def Location.text (l : Location) : String :=
  s!"{l.first.line}:{l.first.column}..{l.last.line}:{l.last.column}"

namespace Node

mutual

/-- The node and all below it in preorder, each with its depth. -/
def preorder (depth : Nat) : Node → List (Nat × Node)
  | ⟨description, verdict, span, children, error⟩ =>
    (depth, ⟨description, verdict, span, children, error⟩) :: preorderAll (depth + 1) children

/-- The nodes of a list of trees. -/
def preorderAll (depth : Nat) : List Node → List (Nat × Node)
  | [] => []
  | n :: rest => preorder depth n ++ preorderAll depth rest

end

/-- The first node in preorder with a description. -/
def find? (n : Node) (description : String) : Option Node :=
  ((n.preorder 0).map Prod.snd).find? (·.description = description)

/-- The place of a node in the source. -/
def location? (n : Node) (lexemes : List Lexeme) : Option Location := do
  let span ← n.span
  let first ← lexemes[span.first]?
  let last ← lexemes[span.last]?
  return ⟨first.first, last.last⟩

/-- The texts of the lexemes of a node, joined by spaces. A span may be empty, ending right before
it begins. -/
def text? (n : Node) (lexemes : List Lexeme) : Option String := do
  let span ← n.span
  if span.first ≤ span.last + 1 ∧ span.last + 1 ≤ lexemes.length then
    let covered := (lexemes.take (span.last + 1)).drop span.first
    some (" ".intercalate (covered.map Lexeme.text))
  else none

end Node

/-- The node of the main rule, and a node for the lexemes left over after it, if any. -/
structure Tree where
  root : Node
  ignored : Option Node

namespace Tree

/-- The main rule matched and took every lexeme. -/
def isSuccess (t : Tree) : Bool := t.root.verdict = .success && t.ignored.isNone

/-- The root and the leftover node. -/
def tops (t : Tree) : List Node := t.root :: t.ignored.toList

end Tree

end Descent.Parse
