import Descent.Proofs.Parse.Failures

/-!
What the parser cannot see. Of a lexeme it sees which of the texts of the grammar its table holds,
and whether it is a number or an identifier. Two lists of lexemes that are alike in this are tried
against the same variants at the same lexemes, and their trees differ in nothing but the texts of
lexemes.
-/
namespace Descent

namespace Grammar

variable {items : List Item} {text : String}

/-- The item that has to match the first lexeme is one of the sequence, if it is a terminal. -/
theorem mem_terminals_of_first? (h : first? items = some (.terminal text)) :
    text ∈ terminals items := by
  induction items using items_induction with
  | nil => cases h
  | single i rest hi ih =>
    cases i with
    | terminal =>
      cases h
      exact List.mem_cons_self
    | lexical => cases h
    | rule | many => cases hi
  | rule name rest ih => cases h
  | many body rest ihb ihr =>
    have hb : first? body = some (.terminal text) := by
      rw [← h]
      cases body <;> rfl
    rw [terminals_cons]
    exact List.mem_append_left _ (ihb hb)

end Grammar

namespace Parse

open Grammar (Item Variant)

variable {α β : Type}

/-- Two tokens between which a grammar makes no difference. -/
structure Token.Alike (g : Grammar) (a b : Token) : Prop where
  terminal : ∀ text ∈ g.vocabulary, a.spelling = some text ↔ b.spelling = some text
  number : a.category.isNumber = b.category.isNumber
  identifier : a.category = .identifier ↔ b.category = .identifier

section Results

variable (texts texts' : List String)

/-- What is expected is the same, and so is the lexeme that is found instead. -/
def SameMessage (e e' : String) : Prop :=
  ∃ what i, e = mismatchMessage texts what i ∧ e' = mismatchMessage texts' what i

structure SameMismatch (e e' : Mismatch) : Prop where
  reached : e.reached = e'.reached
  message : SameMessage texts texts' e.message e'.message

/-- The same nodes but for the texts of lexemes. -/
inductive Node.Resembles : Node → Node → Prop
  /-- The nodes of one lexeme, which each list has at the same place. -/
  | lexeme {i : Nat} {text text' : String} (h : texts[i]? = some text)
      (h' : texts'[i]? = some text') :
      Resembles { description := text, span := some (.single i) }
        { description := text', span := some (.single i) }
  | inner {description : String} {verdict : Verdict} {span : Option Span}
      {children children' : List Node} {error error' : Option String}
      (hc : List.Forall₂ Resembles children children')
      (he : Option.Rel (SameMessage texts texts') error error') :
      Resembles ⟨description, verdict, span, children, error⟩
        ⟨description, verdict, span, children', error'⟩

/-- Two steps that end in the same way at the same lexeme, with related results, and that report the
same on the way. -/
inductive Step.Mirrors (R : α → α → Prop) : Step α → Step α → Prop
  | matched {a a' : α} {d : Nat} {events : List Event} (h : R a a') :
      Mirrors R ⟨.matched a d, events⟩ ⟨.matched a' d, events⟩
  | stuck {a a' : α} {e e' : Mismatch} {events : List Event} (h : R a a')
      (he : SameMismatch texts texts' e e') :
      Mirrors R ⟨.stuck a e, events⟩ ⟨.stuck a' e', events⟩
  | unfinished {events : List Event} : Mirrors R ⟨.unfinished, events⟩ ⟨.unfinished, events⟩

/-- Failed attempts of two runs. -/
structure Failures.Mirrors (f f' : Failures) : Prop where
  attempts : List.Forall₂ (Node.Resembles texts texts') f.attempts f'.attempts
  reached : f.reached = f'.reached
  message : Option.Rel (SameMessage texts texts') f.message f'.message

end Results

section Steps

variable {texts texts' : List String} {R : α → α → Prop} {S : β → β → Prop} {f f' : α → β}
  {s s' : Step α} {us us' : List Node} {n n' : Node}

theorem Node.Resembles.verdict_eq (h : Node.Resembles texts texts' n n') :
    n.verdict = n'.verdict := by
  cases h <;> rfl

theorem Node.Resembles.span_eq (h : Node.Resembles texts texts' n n') : n.span = n'.span := by
  cases h <;> rfl

theorem Step.Mirrors.map (h : s.Mirrors texts texts' R s')
    (hf : ∀ a a', R a a' → S (f a) (f' a')) :
    (s.map f).Mirrors texts texts' S (s'.map f') := by
  cases h with
  | matched h => exact .matched (hf _ _ h)
  | stuck h hm => exact .stuck (hf _ _ h) hm
  | unfinished => exact .unfinished

theorem Step.Mirrors.reporting (h : s.Mirrors texts texts' R s') (events : List Event) :
    (s.reporting events).Mirrors texts texts' R (s'.reporting events) := by
  cases h with
  | matched h => exact .matched h
  | stuck h hm => exact .stuck h hm
  | unfinished => exact .unfinished

/-- Lists of nodes that resemble each other. -/
abbrev MirrorsAll (texts texts' : List String) : Step (List Node) → Step (List Node) → Prop :=
  Step.Mirrors texts texts' (List.Forall₂ (Node.Resembles texts texts'))

/-- Nodes that resemble each other. -/
abbrev MirrorsNode (texts texts' : List String) : Step Node → Step Node → Prop :=
  Step.Mirrors texts texts' (Node.Resembles texts texts')

theorem mirrors_prepend {s s' : Step (List Node)}
    (hu : List.Forall₂ (Node.Resembles texts texts') us us') (h : MirrorsAll texts texts' s s') :
    MirrorsAll texts texts' (s.map (us ++ ·)) (s'.map (us' ++ ·)) :=
  h.map fun _ _ hv => List.rel_append hu hv

theorem mirrors_andThen {s s' : Step (List Node)} {k k' : Nat → Step (List Node)}
    (hs : MirrorsAll texts texts' s s') (hk : ∀ c, MirrorsAll texts texts' (k c) (k' c)) :
    MirrorsAll texts texts' (s.andThen k) (s'.andThen k') := by
  cases hs with
  | matched h => exact (mirrors_prepend h (hk _)).reporting _
  | stuck h hm => exact .stuck h hm
  | unfinished => exact .unfinished

end Steps

namespace Matcher

/-- Two matchers that differ in what they cannot see. -/
structure Alike (m m' : Matcher) : Prop where
  grammar : m'.grammar = m.grammar
  prune : m'.prune = m.prune
  input : List.Forall₂ (Token.Alike m.grammar) m.input.toList m'.input.toList

variable {m m' : Matcher} {call call' : String → Nat → Step Node} {items : List Item} {i : Item}
  {body body' : Nat → Step (List Node)} {first : Option Item} {name : String} {v : Variant}
  {vs : List Variant} {f f' : Failures} {c limit : Nat} {token token' : Token}

theorem sameMismatch (m m' : Matcher) (what : String) (c : Nat) :
    SameMismatch m.texts m'.texts (m.mismatch what c) (m'.mismatch what c) :=
  ⟨rfl, what, c, message_mismatch what c, message_mismatch what c⟩

theorem mirrors_refused (m m' : Matcher) (what : String) (c : Nat) :
    MirrorsAll m.texts m'.texts ⟨.stuck [] (m.mismatch what c), []⟩
      ⟨.stuck [] (m'.mismatch what c), []⟩ :=
  .stuck .nil (sameMismatch m m' what c)

theorem resembles_leaf (ht : m.input[c]? = some token) (ht' : m'.input[c]? = some token') :
    Node.Resembles m.texts m'.texts (leaf c token) (leaf c token') := by
  apply Node.Resembles.lexeme
  · rw [texts, List.getElem?_map, Array.getElem?_toList, ht, Option.map_some]
  · rw [texts, List.getElem?_map, Array.getElem?_toList, ht', Option.map_some]

/-- An item with the grammar's texts takes both tokens or neither. -/
theorem takes_alike {g : Grammar} (ht : token.Alike g token')
    (hi : ∀ text ∈ i.terminals, text ∈ g.vocabulary) : takes i token = takes i token' := by
  cases i with
  | terminal text =>
    have h := ht.terminal text (hi text List.mem_cons_self)
    simp [takes, h]
  | lexical c =>
    cases c with
    | number => exact ht.number
    | identifier => simpa [takes, Grammar.LexicalClass.admits] using ht.identifier
  | rule | many => rfl

namespace Alike

variable (hm : m.Alike m')

include hm

theorem size_eq : m.input.size = m'.input.size := by
  simpa using hm.input.length_eq

theorem getElem? (c : Nat) :
    Option.Rel (Token.Alike m.grammar) m.input[c]? m'.input[c]? := by
  have h := hm.input
  rw [← Array.getElem?_toList, ← Array.getElem?_toList]
  generalize m.input.toList = ts, m'.input.toList = ts' at h
  induction h generalizing c with
  | nil => exact .none
  | cons ht _ ih =>
    cases c with
    | zero => exact .some ht
    | succ c => exact ih c

theorem admits_eq (hi : ∀ text ∈ Grammar.terminals items, text ∈ m.grammar.vocabulary) :
    m.admits (Grammar.first? items) c = m'.admits (Grammar.first? items) c := by
  unfold admits
  rw [hm.prune]
  have ht := hm.getElem? c
  generalize m.input[c]? = o, m'.input[c]? = o' at ht
  cases ht with
  | none => rfl
  | some ht =>
    cases hf : Grammar.first? items with
    | none => rfl
    | some i =>
      cases i with
      | terminal text =>
        have htext := hi text (Grammar.mem_terminals_of_first? hf)
        have htakes := takes_alike (i := .terminal text) ht (List.forall_mem_singleton.mpr htext)
        dsimp only
        rw [htakes]
      | lexical kind =>
        have htakes := takes_alike (i := .lexical kind) ht (List.forall_mem_nil _)
        dsimp only
        rw [htakes]
      | rule | many => rfl

theorem single (hs : i.isSingle) (hi : ∀ text ∈ i.terminals, text ∈ m.grammar.vocabulary) :
    MirrorsAll m.texts m'.texts (m.item call i c) (m'.item call' i c) := by
  have ht := hm.getElem? c
  rcases item_single m call c hs with ⟨token, hin, htakes, he⟩ | ⟨hnone, he⟩
  · rw [hin] at ht
    generalize hin' : m'.input[c]? = o' at ht
    cases ht with
    | some ht =>
      have htakes' := (takes_alike ht hi).symm.trans htakes
      rw [he, item_taken hin' htakes']
      exact .matched (.cons (resembles_leaf hin hin') .nil)
  · have hnone' : ∀ token', m'.input[c]? = some token' → ¬ takes i token' := by
      intro token' hin' htakes'
      rw [hin'] at ht
      generalize hin : m.input[c]? = o at ht
      cases ht with
      | some ht => exact hnone _ hin ((takes_alike ht hi).trans htakes')
    rw [he, item_refused hs hnone']
    exact mirrors_refused m m' _ c

theorem iterate (hb : ∀ c, MirrorsAll m.texts m'.texts (body c) (body' c))
    (hi : ∀ text ∈ Grammar.terminals items, text ∈ m.grammar.vocabulary) :
    MirrorsAll m.texts m'.texts (m.iterate (Grammar.first? items) body limit c)
      (m'.iterate (Grammar.first? items) body' limit c) := by
  induction limit generalizing c with
  | zero =>
    rw [iterate_zero, iterate_zero]
    exact .matched .nil
  | succ limit ih =>
    rw [iterate_succ, iterate_succ, turn, turn, hm.size_eq, hm.admits_eq hi]
    have hbc := hb c
    split
    · generalize body c = s, body' c = s' at hbc
      cases hbc with
      | matched h =>
        dsimp only
        split
        · exact .matched h
        · exact (mirrors_prepend h ih).reporting _
      | stuck h he =>
        dsimp only
        rw [he.reached]
        split
        · exact .matched .nil
        · exact .stuck h he
      | unfinished => exact .unfinished
    · exact .matched .nil

theorem sequence
    (hc : ∀ name c, MirrorsNode m.texts m'.texts (call name c) (call' name c))
    (items : List Item) (hi : ∀ text ∈ Grammar.terminals items, text ∈ m.grammar.vocabulary)
    (c : Nat) :
    MirrorsAll m.texts m'.texts (m.sequence call items c) (m'.sequence call' items c) := by
  induction items using Grammar.items_induction generalizing c with
  | nil =>
    rw [sequence_nil, sequence_nil]
    exact .matched .nil
  | single i rest hs ih =>
    rw [Grammar.terminals_cons, List.forall_mem_append] at hi
    rw [sequence_cons, sequence_cons]
    exact mirrors_andThen (hm.single hs hi.1) (ih hi.2)
  | rule name rest ih =>
    rw [sequence_cons, sequence_cons]
    refine mirrors_andThen ?_ (ih hi)
    by_cases hlt : c < m.input.size
    · rw [item_rule name hlt, item_rule name (hm.size_eq ▸ hlt)]
      exact (hc name c).map fun _ _ h => .cons h .nil
    · rw [item_rule_end name hlt, item_rule_end name (hm.size_eq ▸ hlt)]
      exact mirrors_refused m m' name c
  | many body rest ihb ihr =>
    rw [Grammar.terminals_cons, List.forall_mem_append] at hi
    rw [sequence_cons, sequence_cons, item_many, item_many, hm.size_eq]
    exact mirrors_andThen (hm.iterate (ihb hi.1) hi.1) (ihr hi.2)

theorem rejected (hf : f.Mirrors m.texts m'.texts f') :
    MirrorsNode m.texts m'.texts ⟨m.rejected name c f, []⟩ ⟨m'.rejected name c f', []⟩ := by
  obtain ⟨attempts, reached, message⟩ := f
  obtain ⟨attempts', reached', message'⟩ := f'
  obtain ⟨ha, rfl, hmessage⟩ := hf
  have hsame : SameMessage m.texts m'.texts (message.getD (m.mismatch name c).message)
      (message'.getD (m'.mismatch name c).message) := by
    cases hmessage with
    | none => exact (sameMismatch m m' name c).message
    | some h => exact h
  unfold Matcher.rejected
  rw [hm.size_eq]
  exact .stuck (.inner ha (.some hsame)) ⟨rfl, hsame⟩

theorem addFailure {us us' : List Node} {e e' : Mismatch}
    (hu : List.Forall₂ (Node.Resembles m.texts m'.texts) us us')
    (he : SameMismatch m.texts m'.texts e e') (hf : f.Mirrors m.texts m'.texts f') :
    (m.addFailure name c v us e f).Mirrors m.texts m'.texts
      (m'.addFailure name c v us' e' f') := by
  obtain ⟨ha, hr, hmessage⟩ := hf
  unfold Matcher.addFailure
  rw [hm.size_eq, he.reached, hr]
  refine ⟨List.rel_append ha (.cons ?_ .nil), rfl, .some he.message⟩
  exact .inner hu (.some he.message)

theorem choose (hc : ∀ name c, MirrorsNode m.texts m'.texts (call name c) (call' name c))
    (hv : ∀ v ∈ vs, v ∈ m.grammar.variants name) (hf : f.Mirrors m.texts m'.texts f') :
    MirrorsNode m.texts m'.texts (m.choose call name c vs f) (m'.choose call' name c vs f') := by
  induction vs generalizing f f' with
  | nil =>
    rw [choose_nil, choose_nil]
    exact hm.rejected hf
  | cons v rest ih =>
    obtain ⟨hv, hrest⟩ := List.forall_mem_cons.mp hv
    have hi : ∀ text ∈ Grammar.terminals v.items, text ∈ m.grammar.vocabulary :=
      fun text => Grammar.mem_vocabulary hv
    have hs := (hm.sequence hc v.items hi c).reporting [.trying name v.text c]
    rw [Matcher.choose, Matcher.choose, hm.admits_eq hi]
    split
    · generalize (m.sequence call v.items c).reporting _ = s,
        (m'.sequence call' v.items c).reporting _ = s' at hs
      cases hs with
      | matched h => exact .matched (.inner (.cons (.inner h .none) .nil) .none)
      | stuck h he => exact (ih hrest (hm.addFailure h he hf)).reporting _
      | unfinished => exact .unfinished
    · exact ih hrest hf

theorem rule (depth : Nat) (name : String) (c : Nat) :
    MirrorsNode m.texts m'.texts (m.rule depth name c) (m'.rule depth name c) := by
  induction depth generalizing name c with
  | zero =>
    rw [rule_zero, rule_zero]
    exact .unfinished
  | succ depth ih =>
    rw [rule_succ, rule_succ, hm.grammar]
    exact hm.choose ih (fun v hv => hv) ⟨.nil, rfl, .none⟩

end Alike

end Matcher

variable {g : Grammar} {lexicon lexicon' : Lexicon} {xs ys : List Lexeme}

/-- The same trees but for the texts of lexemes. -/
structure Tree.Resembles (texts texts' : List String) (t t' : Tree) : Prop where
  root : Node.Resembles texts texts' t.root t'.root
  ignored : Option.Rel (Node.Resembles texts texts') t.ignored t'.ignored

/-- The same parses but for the texts of lexemes. -/
structure Parsed.Resembles (texts texts' : List String) (p q : Parsed) : Prop where
  tree : p.tree.Resembles texts texts' q.tree
  events : p.events = q.events

theorem Tree.Resembles.isSuccess_eq {texts texts' : List String} {t t' : Tree}
    (h : t.Resembles texts texts' t') : t.isSuccess = t'.isSuccess := by
  obtain ⟨root, ignored⟩ := t
  obtain ⟨root', ignored'⟩ := t'
  obtain ⟨hr, hi⟩ := h
  rw [isSuccess, isSuccess, hr.verdict_eq]
  cases hi <;> rfl

theorem resembles_ignoredNode? (hlen : xs.length = ys.length) (start : Nat) :
    Option.Rel (Node.Resembles (xs.map Lexeme.text) (ys.map Lexeme.text))
      (ignoredNode? xs start) (ignoredNode? ys start) := by
  have hmessage {zs : List Lexeme} {z : Lexeme} (hz : zs[start]? = some z) :
      "EOF expected but " ++ z.text ++ " found" =
        mismatchMessage (zs.map Lexeme.text) "EOF" start := by
    rw [mismatchMessage, List.getElem?_map, hz]
    rfl
  unfold ignoredNode?
  rw [hlen]
  by_cases hs : start < xs.length
  · have hx := List.getElem?_eq_getElem hs
    have hy := List.getElem?_eq_getElem (hlen ▸ hs)
    rw [hx, hy]
    exact .some (.inner .nil (.some ⟨"EOF", start, hmessage hx, hmessage hy⟩))
  · rw [List.getElem?_eq_none_iff.mpr (Nat.not_lt.mp hs),
      List.getElem?_eq_none_iff.mpr (hlen ▸ Nat.not_lt.mp hs)]
    exact .none

/-- From the node of the main rule to the parse. -/
theorem resembles_ofRoot {root root' : Node} (hlen : xs.length = ys.length)
    (h : Node.Resembles (xs.map Lexeme.text) (ys.map Lexeme.text) root root')
    (events : List Event) :
    Parsed.Resembles (xs.map Lexeme.text) (ys.map Lexeme.text) (.ofRoot xs root events)
      (.ofRoot ys root' events) := by
  unfold Parsed.ofRoot
  rw [h.span_eq, h.verdict_eq, hlen]
  exact ⟨⟨h, resembles_ignoredNode? hlen _⟩, rfl⟩

theorem alike_matcher (h : List.Forall₂ (fun x y =>
      (Token.ofLexeme lexicon x).Alike g (Token.ofLexeme lexicon' y)) xs ys) :
    (matcher g lexicon xs).Alike (matcher g lexicon' ys) := by
  refine ⟨rfl, rfl, ?_⟩
  rw [toList_matcher_input, toList_matcher_input, List.forall₂_map_left_iff,
    List.forall₂_map_right_iff]
  exact h

theorem resembles_parseWithin (h : List.Forall₂ (fun x y =>
      (Token.ofLexeme lexicon x).Alike g (Token.ofLexeme lexicon' y)) xs ys) (depth : Nat) :
    Option.Rel (Parsed.Resembles (xs.map Lexeme.text) (ys.map Lexeme.text))
      (parseWithin depth g lexicon xs) (parseWithin depth g lexicon' ys) := by
  have hm := (alike_matcher h).rule depth g.main 0
  rw [texts_matcher, texts_matcher] at hm
  unfold parseWithin
  generalize (matcher g lexicon xs).rule depth g.main 0 = s,
    (matcher g lexicon' ys).rule depth g.main 0 = s' at hm
  cases hm with
  | matched hr | stuck hr => exact .some (resembles_ofRoot h.length_eq hr _)
  | unfinished => exact .none

/-- Two lists of lexemes, each with a lexicon, that hold the same texts of the grammar at the same
places, and elsewhere lexemes with none of these texts, and numbers and identifiers at the same
places. A parse of the one comes to an end if a parse of the other does, it tries the same variants
at the same lexemes, and node by node the trees have the same descriptions, verdicts and spans, and
errors with the same messages: only the texts of lexemes differ in them. -/
theorem parse_noninterference (g : Grammar) (lexicon lexicon' : Lexicon) {xs ys : List Lexeme}
    (h : List.Forall₂ (fun x y =>
      (Token.ofLexeme lexicon x).Alike g (Token.ofLexeme lexicon' y)) xs ys) :
    Option.Rel (Parsed.Resembles (xs.map Lexeme.text) (ys.map Lexeme.text))
        (parse g lexicon xs) (parse g lexicon' ys) ∧
      ∀ depth, Option.Rel (Parsed.Resembles (xs.map Lexeme.text) (ys.map Lexeme.text))
        (parseWithin depth g lexicon xs) (parseWithin depth g lexicon' ys) := by
  refine ⟨?_, resembles_parseWithin h⟩
  have hbound : (matcher g lexicon xs).depthBound = (matcher g lexicon' ys).depthBound := by
    rw [Matcher.depthBound, Matcher.depthBound, size_matcher_input, size_matcher_input,
      h.length_eq]
    rfl
  rw [parse_eq_parseWithin, parse_eq_parseWithin, hbound]
  exact resembles_parseWithin h _

/-- The parentheses are reserved words here. -/
def wordsLexicon : Lexicon :=
  { Lexicon.seeded ["end", ")", "("] [] with identifiers := .ofList ["a", "xs"] }

/-- The lexemes of `( xs () )` on two lines. -/
def nestedWords : List Lexeme :=
  [⟨.word, 2, "(", 1, 1, 1⟩, ⟨.identifier, 1, "xs", 1, 3, 4⟩, ⟨.word, 2, "(", 2, 1, 1⟩,
    ⟨.word, 1, ")", 2, 2, 2⟩, ⟨.word, 1, ")", 2, 4, 4⟩]

/-- Separators and words, other indices and other places are all the same to a parse. -/
theorem parse_noninterference_lists :
    List.Forall₂ (fun x y =>
      (Token.ofLexeme listsLexicon x).Alike lists (Token.ofLexeme wordsLexicon y))
        nestedList nestedWords ∧
    ∃ p q, parse lists listsLexicon nestedList = some p ∧
      parse lists wordsLexicon nestedWords = some q ∧ p.tree.isSuccess = true ∧
      q.tree.isSuccess = true ∧
      p.Resembles ["(", "a", "(", ")", ")"] ["(", "xs", "(", ")", ")"] q := by
  have halike : List.Forall₂ (fun x y =>
      (Token.ofLexeme listsLexicon x).Alike lists (Token.ofLexeme wordsLexicon y))
        nestedList nestedWords := by
    refine .cons ⟨?_, rfl, ?_⟩ (.cons ⟨?_, rfl, ?_⟩ (.cons ⟨?_, rfl, ?_⟩
      (.cons ⟨?_, rfl, ?_⟩ (.cons ⟨?_, rfl, ?_⟩ .nil)))) <;> decide
  have hrel := (parse_noninterference lists listsLexicon wordsLexicon halike).1
  obtain ⟨p, hp, hs⟩ : ∃ p, parse lists listsLexicon nestedList = some p ∧
      p.tree.isSuccess = true := ⟨_, rfl, rfl⟩
  rw [hp] at hrel
  generalize hq : parse lists wordsLexicon nestedWords = o at hrel
  cases hrel with
  | @some _ q hpq => exact ⟨halike, p, q, hp, rfl, hs, hpq.tree.isSuccess_eq ▸ hs, hpq⟩

end Parse

end Descent
