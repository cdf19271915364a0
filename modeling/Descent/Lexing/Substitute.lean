import Descent.Description.Basic
import Descent.Event
import Descent.Lexicon

/-!
Substitutions on a list of lexemes. Every match of the pattern, leftmost first and without
overlap, gives way to the result; the tokens that pattern and result share at their ends stay the
lexemes they are.
-/
namespace Descent.Lexing

open Text (Position)

/-- How many elements two lists share at their front. -/
def commonPrefix : List String → List String → Nat
  | a :: as, b :: bs => if a = b then commonPrefix as bs + 1 else 0
  | _, _ => 0

/-- How a result replaces its pattern: so many tokens stay in front, so many at the back, and
`inserted` stands in between. -/
structure Splice where
  front : Nat
  back : Nat
  inserted : List String
  deriving DecidableEq, Repr

/-- The front is kept as far as it goes, the back as far as the shorter side then allows. -/
def Splice.between (pattern result : List String) : Splice :=
  let front := commonPrefix pattern result
  let back :=
    min (commonPrefix pattern.reverse result.reverse) (min pattern.length result.length - front)
  ⟨front, back, (result.take (result.length - back)).drop front⟩

/-- The place that inserted lexemes take: where the last matched lexeme before the kept back
begins, or the first matched lexeme if there is none. -/
def Splice.origin (s : Splice) (found : List Lexeme) : Position :=
  (found[found.length - s.back - 1]?.map Lexeme.first).getD .start

/-- The lexeme of an inserted token, which has to be a reserved word or a separator. -/
def insert (lexicon : Lexicon) (place : Position) (token : String) : Except Fault Lexeme :=
  match lexicon.terminal? token with
  | some (category, i) => .ok (.pinned category i token place)
  | none => .error ⟨.unresolvedToken token, place⟩

/-- What stands in the place of one match. -/
def Splice.apply (s : Splice) (lexicon : Lexicon) (found : List Lexeme) :
    Except Fault (List Lexeme) :=
  (s.inserted.mapM (insert lexicon (s.origin found))).map fun inserted =>
    found.take s.front ++ inserted ++ found.drop (found.length - s.back)

/-- The lexemes after a substitution: how many matches were replaced, and the fault if one could
not be. -/
structure Replaced where
  lexemes : List Lexeme
  count : Nat
  fault : Option Fault

def Replaced.cons (x : Lexeme) (r : Replaced) : Replaced := { r with lexemes := x :: r.lexemes }

def Replaced.after (new : List Lexeme) (r : Replaced) : Replaced :=
  { r with lexemes := new ++ r.lexemes, count := r.count + 1 }

/-- Replaces each match of the pattern `p :: ps`. -/
def replaceAll (lexicon : Lexicon) (p : String) (ps : List String) (splice : Splice)
    (lexemes : List Lexeme) : Replaced :=
  match lexemes with
  | [] => ⟨[], 0, none⟩
  | x :: rest =>
    if x.text = p ∧ (rest.take ps.length).map Lexeme.text = ps then
      match splice.apply lexicon (x :: rest.take ps.length) with
      | .error f => ⟨x :: rest, 0, some f⟩
      | .ok new => (replaceAll lexicon p ps splice (rest.drop ps.length)).after new
    else (replaceAll lexicon p ps splice rest).cons x
termination_by lexemes.length
decreasing_by all_goals simp only [List.length_drop, List.length_cons]; omega

/-- What the substitutions leave behind. After a fault it is what stood there when the fault
arose. -/
structure Substituted where
  lexemes : List Lexeme
  fault : Option Fault
  events : List Event

/-- Applies the substitutions in order, each to the whole list. -/
def substitute (lexicon : Lexicon) : List Substitution → List Lexeme → Substituted
  | [], lexemes => ⟨lexemes, none, []⟩
  | s :: rest, lexemes =>
    if s.isIdentity then substitute lexicon rest lexemes
    else
      match s.pattern with
      | [] =>
        let r := substitute lexicon rest lexemes
        { r with events := .emptyPattern s.replacement :: r.events }
      | p :: ps =>
        let done := replaceAll lexicon p ps (.between (p :: ps) s.result) lexemes
        match done.fault with
        | some f => ⟨done.lexemes, some f, []⟩
        | none =>
          let r := substitute lexicon rest done.lexemes
          if done.count = 0 then r
          else
            let event := .substituted (Text.trim s.found) (Text.trim s.replacement) done.count
            { r with events := event :: r.events }

end Descent.Lexing
