import Descent.Event
import Descent.Grammar.Basic
import Descent.Lexicon
import Descent.Parse.Tree

/-!
Recursive descent with ordered choice. A rule takes the first of its variants that matches as a
whole; a repetition goes on as long as it can and gives nothing back. What fails is kept in the
tree.
-/
namespace Descent.Parse

open Grammar (Item Variant)

/-- What a match depends on of a lexeme: the text that its table holds and its category. Its own
text is shown and has no influence. -/
structure Token where
  spelling : Option String
  category : Category
  shown : String
  deriving DecidableEq, Repr

def Token.ofLexeme (lexicon : Lexicon) (x : Lexeme) : Token :=
  ⟨lexicon.text? x, x.category, x.text⟩

/-- Why a match stopped, and the lexeme that stopped it. -/
structure Mismatch where
  message : String
  reached : Nat
  deriving DecidableEq, Repr

/-- How a match ended. A result is there in either case; `unfinished` means that the depth of
nested rules was exhausted. -/
inductive Outcome (α : Type) where
  | matched (result : α) (next : Nat)
  | stuck (result : α) (mismatch : Mismatch)
  | unfinished

def Outcome.map {α β : Type} (f : α → β) : Outcome α → Outcome β
  | .matched a next => .matched (f a) next
  | .stuck a mismatch => .stuck (f a) mismatch
  | .unfinished => .unfinished

/-- An outcome and what was reported on the way. -/
structure Step (α : Type) where
  outcome : Outcome α
  events : List Event

namespace Step

variable {α β : Type}

def map (f : α → β) (s : Step α) : Step β := ⟨s.outcome.map f, s.events⟩

def reporting (events : List Event) (s : Step α) : Step α := { s with events := events ++ s.events }

/-- Goes on after a match, with the children of both steps. -/
def andThen (s : Step (List Node)) (k : Nat → Step (List Node)) : Step (List Node) :=
  match s.outcome with
  | .matched children next => ((k next).map (children ++ ·)).reporting s.events
  | .stuck .. | .unfinished => s

end Step

/-- A grammar to be matched against tokens. With `prune`, a variant or a repetition whose first item
cannot match the current token is not entered. -/
structure Matcher where
  grammar : Grammar
  input : Array Token
  prune : Bool := true

namespace Matcher

/-- Whether a terminal or a class takes a token. -/
def takes (item : Item) (token : Token) : Bool :=
  match item with
  | .terminal text => token.spelling = some text
  | .lexical c => c.admits token.category
  | .rule _ | .many _ => false

/-- What a message says is expected. -/
def expected : Item → String
  | .terminal text => text
  | .lexical c => c.name
  | .rule name => name
  | .many [] => ""
  | .many (i :: _) => expected i

variable (m : Matcher)

/-- What a message says was found. -/
def found (cursor : Nat) : String := (m.input[cursor]?).elim "EOF" Token.shown

def mismatch (what : String) (cursor : Nat) : Mismatch :=
  ⟨what ++ " expected but " ++ m.found cursor ++ " found", cursor⟩

/-- Whether a sequence that begins with `first` is worth entering. References always are, and so is
everything at the end of input, where it can say what it expected. -/
def admits (first : Option Item) (cursor : Nat) : Bool :=
  !m.prune ||
    match m.input[cursor]?, first with
    | some token, some (.terminal text) => takes (.terminal text) token
    | some token, some (.lexical c) => takes (.lexical c) token
    | _, _ => true

/-- The node of one lexeme. -/
def leaf (cursor : Nat) (token : Token) : Node :=
  { description := token.shown, span := some (.single cursor) }

/-- Runs `body` again and again while lexemes are left, at most `limit` times. An iteration that
takes nothing is the last; one that fails at its first lexeme is undone and ends the repetition;
one that fails later fails the repetition. -/
def iterate (first : Option Item) (body : Nat → Step (List Node)) :
    (limit cursor : Nat) → Step (List Node)
  | 0, cursor => ⟨.matched [] cursor, []⟩
  | limit + 1, cursor =>
    if cursor < m.input.size ∧ m.admits first cursor then
      let s := body cursor
      match s.outcome with
      | .matched children next =>
        if next = cursor then ⟨.matched children cursor, s.events⟩
        else ((iterate first body limit next).map (children ++ ·)).reporting s.events
      | .stuck _ mismatch =>
        if mismatch.reached = cursor then ⟨.matched [] cursor, s.events⟩ else s
      | .unfinished => s
    else ⟨.matched [] cursor, []⟩

mutual

/-- Matches one item at `cursor`; `call` matches a rule. -/
def item (call : String → Nat → Step Node) : Item → Nat → Step (List Node)
  | .many body, cursor =>
    m.iterate (Grammar.first? body) (sequence call body) (m.input.size - cursor) cursor
  | .rule name, cursor =>
    if cursor < m.input.size then (call name cursor).map ([·])
    else ⟨.stuck [] (m.mismatch name cursor), []⟩
  | .terminal text, cursor =>
    match m.input[cursor]? with
    | some token =>
      if takes (.terminal text) token then ⟨.matched [leaf cursor token] (cursor + 1), []⟩
      else ⟨.stuck [] (m.mismatch text cursor), []⟩
    | none => ⟨.stuck [] (m.mismatch text cursor), []⟩
  | .lexical c, cursor =>
    match m.input[cursor]? with
    | some token =>
      if takes (.lexical c) token then ⟨.matched [leaf cursor token] (cursor + 1), []⟩
      else ⟨.stuck [] (m.mismatch c.name cursor), []⟩
    | none => ⟨.stuck [] (m.mismatch c.name cursor), []⟩

/-- Matches items one after the other. -/
def sequence (call : String → Nat → Step Node) : List Item → Nat → Step (List Node)
  | [], cursor => ⟨.matched [] cursor, []⟩
  | i :: rest, cursor => (item call i cursor).andThen (sequence call rest)

end

end Matcher

end Descent.Parse
