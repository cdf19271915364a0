import Descent.Parse.Matcher

/-! Rules matched by their variants, and the parse of a whole list of lexemes. -/
namespace Descent.Parse

open Grammar (Variant)

/-- The attempts of a rule that have failed: their nodes, the furthest lexeme that stopped one, and
the last message. -/
structure Failures where
  attempts : List Node
  reached : Nat
  message : Option String

namespace Matcher

variable (m : Matcher)

/-- The description of a variant's node. -/
def describe (rule : String) (v : Variant) : String := rule ++ " ::= " ++ v.text

/-- The node of a rule whose variant `v` has matched the lexemes from `start` up to `next`. -/
def accepted (rule : String) (start : Nat) (v : Variant) (children : List Node) (next : Nat) :
    Node :=
  let span := Span.consumed start next
  { description := rule, verdict := .success, span,
    children := [{ description := describe rule v,
                   verdict := if v.isBare then .pending else .success, span, children }] }

/-- Adds the failed attempt of variant `v`. -/
def addFailure (rule : String) (start : Nat) (v : Variant) (children : List Node)
    (mismatch : Mismatch) (f : Failures) : Failures :=
  { attempts := f.attempts ++
      [{ description := describe rule v, verdict := .failure,
         span := Span.attempted m.input.size start mismatch.reached, children,
         error := some mismatch.message }]
    reached := max f.reached mismatch.reached
    message := some mismatch.message }

/-- The outcome of a rule none of whose variants has matched. -/
def rejected (rule : String) (start : Nat) (f : Failures) : Outcome Node :=
  let message := f.message.getD (m.mismatch rule start).message
  .stuck
    { description := rule, verdict := .failure,
      span := Span.attempted m.input.size start f.reached, children := f.attempts,
      error := some message }
    ⟨message, f.reached⟩

/-- Tries variants in order; `call` matches the rules that they refer to. -/
def choose (call : String → Nat → Step Node) (rule : String) (start : Nat) :
    List Variant → Failures → Step Node
  | [], f => ⟨m.rejected rule start f, []⟩
  | v :: rest, f =>
    if m.admits (Grammar.first? v.items) start then
      let s := (m.sequence call v.items start).reporting [.trying rule v.text start]
      match s.outcome with
      | .matched children next => ⟨.matched (accepted rule start v children next) next, s.events⟩
      | .stuck children mismatch =>
        (choose call rule start rest (m.addFailure rule start v children mismatch f)).reporting
          s.events
      | .unfinished => ⟨.unfinished, s.events⟩
    else choose call rule start rest f

/-- Matches the rule `name` at `start` with rules nested at most `depth` deep. -/
def rule : (depth : Nat) → String → Nat → Step Node
  | 0, _, _ => ⟨.unfinished, []⟩
  | depth + 1, name, start =>
    m.choose (rule depth) name start (m.grammar.variants name) ⟨[], start, none⟩

/-- No match that ends nests a rule in itself at one lexeme, so it never goes deeper than this. -/
def depthBound : Nat := m.grammar.rules.length * (m.input.size + 1) + 1

end Matcher

/-- A parse tree and what was reported on the way. -/
structure Parsed where
  tree : Tree
  events : List Event

/-- The node of the lexemes from `start` on, if there are any. -/
def ignoredNode? (lexemes : List Lexeme) (start : Nat) : Option Node :=
  lexemes[start]?.map fun x =>
    { description := "Ignored text", verdict := .failure,
      span := some ⟨start, lexemes.length - 1⟩,
      error := some ("EOF expected but " ++ x.text ++ " found") }

/-- The parse whose main rule has the node `root`. -/
def Parsed.ofRoot (lexemes : List Lexeme) (root : Node) (events : List Event) : Parsed :=
  let next := root.span.elim 0 (·.last + 1)
  { tree := ⟨root, ignoredNode? lexemes next⟩
    events := events ++ [.parsed lexemes.length root.verdict (lexemes.length - next)] }

/-- The matcher for a list of lexemes. -/
def matcher (grammar : Grammar) (lexicon : Lexicon) (lexemes : List Lexeme) : Matcher :=
  { grammar, input := (lexemes.map (Token.ofLexeme lexicon)).toArray }

/-- Matches the main rule against the lexemes. Failures stand in the tree; there is no tree only if
the grammar refers back to a rule without taking a lexeme first and so would go on for ever. -/
def parse (grammar : Grammar) (lexicon : Lexicon) (lexemes : List Lexeme) : Option Parsed :=
  let m := matcher grammar lexicon lexemes
  let s := m.rule m.depthBound grammar.main 0
  match s.outcome with
  | .matched root _ | .stuck root _ => some (.ofRoot lexemes root s.events)
  | .unfinished => none

end Descent.Parse
