import Descent.Proofs.Grammar.Indexed
import Descent.Proofs.Parse.Termination

/-!
Recursive descent by handles. A rule is looked up in the array, and its name is read off only where
a node or a message shows it. The match comes to what it comes to by names.
-/
namespace Descent.IndexedGrammar

open Parse (Failures Mismatch Node Outcome Parsed Span Step Token)
open Parse.Matcher (leaf)

/-- A grammar to be matched against tokens. -/
structure Parser where
  grammar : IndexedGrammar
  input : Array Token

namespace Parser

/-- Whether a terminal or a class takes a token. -/
def takes (item : Item) (token : Token) : Bool :=
  match item with
  | .terminal text => token.spelling = some text
  | .lexical c => c.admits token.category
  | .rule _ | .many _ => false

variable (m : Parser)

/-- What a message says is expected. -/
def expected : Item → String
  | .terminal text => text
  | .lexical c => c.name
  | .rule handle => (m.grammar.rules[handle]?).elim "" Rule.name
  | .many [] => ""
  | .many (i :: _) => expected i

def found (cursor : Nat) : String := (m.input[cursor]?).elim "EOF" Token.shown

def mismatch (what : String) (cursor : Nat) : Mismatch :=
  ⟨what ++ " expected but " ++ m.found cursor ++ " found", cursor⟩

/-- Whether a sequence that begins with `first` is worth entering. -/
def admits (first : Option Item) (cursor : Nat) : Bool :=
  match m.input[cursor]?, first with
  | some token, some (.terminal text) => takes (.terminal text) token
  | some token, some (.lexical c) => takes (.lexical c) token
  | _, _ => true

/-- Matches an item that is no repetition at a lexeme; `call` matches a rule. -/
def single (call : Nat → Nat → Step Node) (i : Item) (cursor : Nat) (token : Token) :
    Step (List Node) :=
  match i with
  | .rule handle => (call handle cursor).map ([·])
  | i =>
    if takes i token then ⟨.matched [leaf cursor token] (cursor + 1), []⟩
    else ⟨.stuck [] (m.mismatch (m.expected i) cursor), []⟩

/-- Runs `body` again and again while lexemes are left, at most `limit` times. -/
def iterate (first : Option Item) (body : Nat → Step (List Node)) :
    (limit cursor : Nat) → Step (List Node)
  | 0, cursor => ⟨.matched [] cursor, []⟩
  | limit + 1, cursor =>
    if cursor < m.input.size ∧ m.admits first cursor then
      let s := body cursor
      match s.outcome with
      | .matched children next =>
        if next = cursor then ⟨.matched children cursor, s.events⟩
        else ((iterate first body limit next).map (children ++ ·)).reporting s.events
      | .stuck _ mismatch =>
        if mismatch.reached = cursor then ⟨.matched [] cursor, s.events⟩ else s
      | .unfinished => s
    else ⟨.matched [] cursor, []⟩

mutual

/-- Matches one item at `cursor`. -/
def item (call : Nat → Nat → Step Node) : Item → Nat → Step (List Node)
  | .many body, cursor =>
    m.iterate (first? body) (sequence call body) (m.input.size - cursor) cursor
  | i, cursor =>
    match m.input[cursor]? with
    | none => ⟨.stuck [] (m.mismatch (m.expected i) cursor), []⟩
    | some token => m.single call i cursor token

/-- Matches items one after the other. -/
def sequence (call : Nat → Nat → Step Node) : List Item → Nat → Step (List Node)
  | [], cursor => ⟨.matched [] cursor, []⟩
  | i :: rest, cursor => (item call i cursor).andThen (sequence call rest)

end

/-- The description of a variant's node. -/
def describe (rule : String) (v : Variant) : String := rule ++ " ::= " ++ v.text

/-- The node of a rule whose variant `v` has matched the lexemes from `start` up to `next`. -/
def accepted (rule : String) (start : Nat) (v : Variant) (children : List Node) (next : Nat) :
    Node :=
  let span := Span.consumed start next
  { description := rule, verdict := .success, span,
    children := [{ description := describe rule v,
                   verdict := if v.isBare then .pending else .success, span, children }] }

/-- Adds the failed attempt of variant `v`. -/
def addFailure (rule : String) (start : Nat) (v : Variant) (children : List Node)
    (mismatch : Mismatch) (f : Failures) : Failures :=
  { attempts := f.attempts ++
      [{ description := describe rule v, verdict := .failure,
         span := Span.attempted m.input.size start mismatch.reached, children,
         error := some mismatch.message }]
    reached := max f.reached mismatch.reached
    message := some mismatch.message }

/-- The outcome of a rule none of whose variants has matched. -/
def rejected (rule : String) (start : Nat) (f : Failures) : Outcome Node :=
  let message := f.message.getD (m.mismatch rule start).message
  .stuck
    { description := rule, verdict := .failure,
      span := Span.attempted m.input.size start f.reached, children := f.attempts,
      error := some message }
    ⟨message, f.reached⟩

/-- Tries variants in order. -/
def choose (call : Nat → Nat → Step Node) (rule : String) (start : Nat) :
    List Variant → Failures → Step Node
  | [], f => ⟨m.rejected rule start f, []⟩
  | v :: rest, f =>
    if m.admits (first? v.items) start then
      let s := (m.sequence call v.items start).reporting [.trying rule v.text start]
      match s.outcome with
      | .matched children next => ⟨.matched (accepted rule start v children next) next, s.events⟩
      | .stuck children mismatch =>
        (choose call rule start rest (m.addFailure rule start v children mismatch f)).reporting
          s.events
      | .unfinished => ⟨.unfinished, s.events⟩
    else choose call rule start rest f

/-- Matches the rule at a handle with rules nested at most `depth` deep. A handle of no rule has no
answer. -/
def inspect : (depth : Nat) → (handle start : Nat) → Step Node
  | 0, _, _ => ⟨.unfinished, []⟩
  | depth + 1, handle, start =>
    match m.grammar.rules[handle]? with
    | none => ⟨.unfinished, []⟩
    | some r => m.choose (inspect depth) r.name start r.variants ⟨[], start, none⟩

/-- No match that ends goes deeper than this. -/
def depthBound : Nat := m.grammar.rules.size * (m.input.size + 1) + 1

end Parser

def parser (g : IndexedGrammar) (lexicon : Lexicon) (lexemes : List Lexeme) : Parser :=
  ⟨g, (lexemes.map (Token.ofLexeme lexicon)).toArray⟩

/-- The parse that a match of the main rule has come to. -/
def parsed? (lexemes : List Lexeme) (s : Step Node) : Option Parsed :=
  match s.outcome with
  | .matched root _ | .stuck root _ => some (.ofRoot lexemes root s.events)
  | .unfinished => none

/-- The parse with rules nested at most `depth` deep. -/
def parseWithin (g : IndexedGrammar) (depth : Nat) (lexicon : Lexicon) (lexemes : List Lexeme) :
    Option Parsed :=
  parsed? lexemes ((g.parser lexicon lexemes).inspect depth g.main 0)

/-- Matches the main rule against the lexemes. -/
def parse (g : IndexedGrammar) (lexicon : Lexicon) (lexemes : List Lexeme) : Option Parsed :=
  g.parseWithin (g.parser lexicon lexemes).depthBound lexicon lexemes

variable {m : Parser} {m' : Parse.Matcher} {list : List String} {is : List Item}
  {js : List Grammar.Item} {call : Nat → Nat → Step Node} {call' : String → Nat → Step Node}
  {g : IndexedGrammar} {q : Grammar}

/-- A parser by handles and a matcher by names of the same grammar and the same tokens. -/
structure Parser.Mirrors (m : Parser) (m' : Parse.Matcher) : Prop where
  grammar : m.grammar.SpellsOut m'.grammar
  input : m'.input = m.input
  prune : m'.prune = true

theorem first?_many (body rest : List Item) : first? (.many body :: rest) = first? body := by
  cases body <;> rfl

theorem first?_many' (body rest : List Grammar.Item) :
    Grammar.first? (.many body :: rest) = Grammar.first? body := by
  cases body <;> rfl

/-- Both begin with the same item, or neither has one. -/
theorem Spells.first? (h : Spells list is js) :
    Option.Rel (fun i j => Spells list [i] [j]) (IndexedGrammar.first? is) (Grammar.first? js) := by
  induction h with
  | nil => exact .none
  | terminal => exact .some (.terminal .nil)
  | lexical => exact .some (.lexical .nil)
  | rule hn => exact .some (.rule hn .nil)
  | many _ _ ihb =>
    rw [first?_many, first?_many']
    exact ihb

namespace Parser

theorem Mirrors.admits (hm : m.Mirrors m') (h : Spells list is js) (c : Nat) :
    m.admits (IndexedGrammar.first? is) c = m'.admits (Grammar.first? js) c := by
  have hfirst := h.first?
  unfold Parser.admits Parse.Matcher.admits
  rw [hm.prune, hm.input]
  generalize IndexedGrammar.first? is = i, Grammar.first? js = j at hfirst
  cases m.input[c]? with
  | none => rfl
  | some token =>
    cases hfirst with
    | none => rfl
    | some h => cases h <;> rfl

theorem Mirrors.mismatch (hm : m.Mirrors m') (what : String) (c : Nat) :
    m.mismatch what c = m'.mismatch what c := by
  rw [Parser.mismatch, Parse.Matcher.mismatch, Parser.found, Parse.Matcher.found, hm.input]

theorem Mirrors.iterate (hm : m.Mirrors m') (h : Spells list is js)
    {body : Nat → Step (List Node)} (limit c : Nat) :
    m.iterate (IndexedGrammar.first? is) body limit c =
      m'.iterate (Grammar.first? js) body limit c := by
  induction limit generalizing c with
  | zero => rw [Parser.iterate, Parse.Matcher.iterate]
  | succ limit ih =>
    rw [Parser.iterate, Parse.Matcher.iterate, hm.admits h, hm.input]
    by_cases hin : c < m.input.size ∧ m'.admits (Grammar.first? js) c
    · rw [if_pos hin, if_pos hin]
      dsimp only
      cases (body c).outcome with
      | matched children next => simp only [ih]
      | stuck _ e => rfl
      | unfinished => rfl
    · rw [if_neg hin, if_neg hin]

theorem Mirrors.sequence (hm : m.Mirrors m')
    (hcall : ∀ (handle : Nat) (name : String), m'.grammar.names[handle]? = some name →
      call handle = call' name)
    (h : Spells m'.grammar.names is js) : m.sequence call is = m'.sequence call' js := by
  funext c
  induction h generalizing c with
  | nil => rw [Parser.sequence, Parse.Matcher.sequence]
  | @terminal text is js h ih =>
    have hitem : m.item call (.terminal text) c = m'.item call' (.terminal text) c := by
      rw [Parser.item, Parse.Matcher.item, hm.input, ← hm.mismatch]
      · cases m.input[c]? <;> rfl
      · simp
    rw [Parser.sequence, Parse.Matcher.sequence, funext ih, hitem]
  | @lexical k is js h ih =>
    have hitem : m.item call (.lexical k) c = m'.item call' (.lexical k) c := by
      rw [Parser.item, Parse.Matcher.item, hm.input, ← hm.mismatch]
      · cases m.input[c]? <;> rfl
      · simp
    rw [Parser.sequence, Parse.Matcher.sequence, funext ih, hitem]
  | @rule handle name is js hn h ih =>
    have hitem : m.item call (.rule handle) c = m'.item call' (.rule name) c := by
      obtain ⟨r, p, hr, -, hs, rfl⟩ := hm.grammar.rule hn
      rw [Parser.item, Parse.Matcher.item, hm.input, ← hm.mismatch]
      · by_cases hc : c < m.input.size
        · rw [if_pos hc, Array.getElem?_eq_getElem hc, ← hcall handle _ hn]
          rfl
        · have hname : m.expected (.rule handle) = p.name := by
            rw [Parser.expected, hr]
            exact hs.name
          rw [if_neg hc, Array.getElem?_eq_none (by omega), hname]
      · simp
    rw [Parser.sequence, Parse.Matcher.sequence, funext ih, hitem]
  | @many body is body' js hb h ihb ih =>
    have hitem : m.item call (.many body) c = m'.item call' (.many body') c := by
      rw [Parser.item, Parse.Matcher.item, hm.input, hm.iterate hb, funext ihb]
    rw [Parser.sequence, Parse.Matcher.sequence, funext ih, hitem]

theorem Mirrors.accepted {v : Variant} {w : Grammar.Variant} (hv : v.Spells list w)
    (rule : String) (start : Nat) (children : List Node) (next : Nat) :
    Parser.accepted rule start v children next =
      Parse.Matcher.accepted rule start w children next := by
  have hbare : v.isBare = w.isBare := by
    have hitems := hv.items
    unfold Variant.isBare Grammar.Variant.isBare
    generalize v.items = is, w.items = js at hitems
    cases hitems with
    | terminal h => cases h <;> rfl
    | _ => rfl
  unfold Parser.accepted Parse.Matcher.accepted Parser.describe Parse.Matcher.describe
  rw [hbare, hv.text]

theorem Mirrors.choose (hm : m.Mirrors m')
    (hcall : ∀ (handle : Nat) (name : String), m'.grammar.names[handle]? = some name →
      call handle = call' name)
    {vs : List Variant} {ws : List Grammar.Variant}
    (h : List.Forall₂ (Variant.Spells m'.grammar.names) vs ws) (rule : String) (start : Nat)
    (f : Failures) : m.choose call rule start vs f = m'.choose call' rule start ws f := by
  induction h generalizing f with
  | nil =>
    rw [Parser.choose, Parse.Matcher.choose, Parser.rejected, Parse.Matcher.rejected, hm.mismatch,
      hm.input]
  | @cons v w vs ws hv _ ih =>
    have hfailure : m.addFailure rule start v = m'.addFailure rule start w := by
      funext children mismatch f
      rw [Parser.addFailure, Parse.Matcher.addFailure, Parser.describe, Parse.Matcher.describe,
        hv.text, hm.input]
    rw [Parser.choose, Parse.Matcher.choose, hm.admits hv.items, hm.sequence hcall hv.items,
      hv.text, hfailure]
    by_cases hin : m'.admits (Grammar.first? w.items) start
    · rw [if_pos hin, if_pos hin]
      dsimp only [Step.reporting]
      cases (m'.sequence call' w.items start).outcome with
      | matched children next => simp only [Mirrors.accepted hv]
      | stuck children e => simp only [ih]
      | unfinished => rfl
    · rw [if_neg hin, if_neg hin, ih]

/-- The rule at a handle and the rule of its name match alike. -/
theorem Mirrors.inspect (hm : m.Mirrors m') (depth : Nat) {handle : Nat} {name : String}
    (hn : m'.grammar.names[handle]? = some name) : m.inspect depth handle = m'.rule depth name := by
  induction depth generalizing handle name with
  | zero =>
    funext c
    rw [Parser.inspect, Parse.Matcher.rule]
  | succ depth ih =>
    obtain ⟨r, p, hr, hp, hs, rfl⟩ := hm.grammar.rule hn
    have hrule : m'.grammar.rule? p.name = some p :=
      (Grammar.rule?_eq_some_iff hm.grammar.names.nodup).mpr ⟨List.mem_of_getElem? hp, rfl⟩
    have hvariants : m'.grammar.variants p.name = p.variants := by
      rw [Grammar.variants, hrule]
      rfl
    funext c
    rw [Parser.inspect, Parse.Matcher.rule, hr, hvariants, ← hs.name]
    exact hm.choose (fun _ _ h => ih h) hs.variants r.name c _

end Parser

/-- A grammar by handles parses as the grammar does that it spells out. -/
theorem parseWithin_spelled (h : g.SpellsOut q) (depth : Nat) (lexicon : Lexicon)
    (lexemes : List Lexeme) :
    g.parseWithin depth lexicon lexemes = Parse.parseWithin depth q lexicon lexemes := by
  have hm : (g.parser lexicon lexemes).Mirrors (Parse.matcher q lexicon lexemes) := ⟨h, rfl, rfl⟩
  exact congrArg (parsed? lexemes) (congrFun (hm.inspect depth h.main) 0)

theorem parse_spelled (h : g.SpellsOut q) (lexicon : Lexicon) (lexemes : List Lexeme) :
    g.parse lexicon lexemes = Parse.parse q lexicon lexemes := by
  have hbound : (g.parser lexicon lexemes).depthBound =
      (Parse.matcher q lexicon lexemes).depthBound := by
    have hlength : g.rules.size = q.rules.length := h.rules.length_eq
    exact congrArg (fun n => n * ((g.parser lexicon lexemes).input.size + 1) + 1) hlength
  rw [parse, Parse.parse_eq_parseWithin, parseWithin_spelled h, hbound]

end Descent.IndexedGrammar
