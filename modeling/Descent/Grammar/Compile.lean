import Descent.Description.Basic
import Descent.Event
import Descent.Grammar.Fault
import Descent.Grammar.Tokens
import Descent.Lexicon

/-! Grammars from their textual form. -/
namespace Descent.Grammar

/-- What the text of a rule may refer to: the declared names and the terminals. -/
structure Scope where
  rule : String
  names : List String
  lexicon : Lexicon

/-- Cuts a list of tokens at the bracket that closes `depth` brackets more than the list opens. -/
def splitClosing (depth : Nat) : List String → Option (List String × List String)
  | [] => none
  | token :: rest =>
    if token = "]" then
      match depth with
      | 0 => some ([], rest)
      | depth + 1 => (splitClosing depth rest).map fun (inner, after) => (token :: inner, after)
    else
      (splitClosing (if token = "[" then depth + 1 else depth) rest).map fun (inner, after) =>
        (token :: inner, after)

theorem length_splitClosing {depth : Nat} {tokens inner after : List String}
    (h : splitClosing depth tokens = some (inner, after)) :
    inner.length + after.length + 1 = tokens.length := by
  induction tokens generalizing depth inner after with
  | nil => simp [splitClosing] at h
  | cons token rest ih =>
    unfold splitClosing at h
    simp only [List.length_cons]
    split at h
    · split at h
      · cases h; simp
      · obtain ⟨⟨i, a⟩, hi, ht⟩ := Option.map_eq_some_iff.mp h
        cases ht
        have := ih hi
        simp only [List.length_cons]
        omega
    · obtain ⟨⟨i, a⟩, hi, ht⟩ := Option.map_eq_some_iff.mp h
      cases ht
      have := ih hi
      simp only [List.length_cons]
      omega

namespace Scope

/-- The item of a token that is no bracket. Class names hide rules of the same name. -/
def item (s : Scope) (token : String) : Except Fault Item :=
  match referenced? token with
  | some name =>
    match LexicalClass.ofName? name with
    | some c => .ok (.lexical c)
    | none =>
      if name ∈ s.names then .ok (.rule name) else .error (.unknownNonterminal s.rule name)
  | none =>
    if (s.lexicon.terminal? token).isSome then .ok (.terminal token)
    else .error (.unknownTerminal s.rule token)

/-- The items of a list of tokens. -/
def items (s : Scope) (tokens : List String) : Except Fault (List Item) :=
  match tokens with
  | [] => .ok []
  | token :: rest =>
    if token = "[" then
      match _h : splitClosing 0 rest with
      | none => .error (.malformed s.rule .unclosedBracket)
      | some (inner, after) =>
        if inner.isEmpty then .error (.malformed s.rule .emptyRepetition)
        else do
          let body ← s.items inner
          let others ← s.items after
          return .many body :: others
    else if token = "]" then .error (.malformed s.rule .unopenedBracket)
    else do
      let first ← s.item token
      let others ← s.items rest
      return first :: others
termination_by tokens.length
decreasing_by
  · have := length_splitClosing ‹_›; simp only [List.length_cons]; omega
  · have := length_splitClosing ‹_›; simp only [List.length_cons]; omega
  · simp

/-- A variant from its text. -/
def variant (s : Scope) (text : List Char) : Except Fault Variant :=
  let tokens := tokens text
  if tokens.isEmpty then .error (.malformed s.rule .emptyVariant)
  else (s.items tokens).map (⟨·, " ".intercalate tokens⟩)

end Scope

/-- A rule from its text, in which bars separate the variants. -/
def compileRule (names : List String) (lexicon : Lexicon) (r : RuleText) : Except Fault Rule :=
  let name := Text.trim r.name
  ((r.body.toList.splitOn '|').mapM (Scope.variant ⟨name, names, lexicon⟩)).map (⟨name, ·⟩)

/-- The first name that also stands earlier in the list. -/
def firstRepeat? (seen : List String) : List String → Option String
  | [] => none
  | name :: rest => if name ∈ seen then some name else firstRepeat? (name :: seen) rest

/-- The grammar of a text. Names are looked at first, so that rules may refer to later ones; the
variants follow in order, and the main rule comes last. -/
def compile (lexicon : Lexicon) (text : GrammarText) : Except Fault Grammar :=
  let names := text.rules.map fun r => Text.trim r.name
  let main := Text.trim text.main
  match firstRepeat? [] names with
  | some name => .error (.duplicateRule name)
  | none => do
    let rules ← text.rules.mapM (compileRule names lexicon)
    if main ∈ names then return ⟨rules, main⟩ else .error (.missingMain main)

/-- The report of a grammar that compiled. -/
def compiledEvent (g : Grammar) : Event := .compiled g.rules.length g.main

end Descent.Grammar
