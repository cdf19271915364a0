import Descent.Command
import Descent.Proofs.Parse.Derivation

/-!
What the matcher accepts is derivable: the node of a matched rule is a derivation of the lexemes
that were consumed, and an analysis that succeeds derives all of its lexemes from the main rule.
-/
namespace Descent.Parse

open Grammar (Item Variant)

namespace Matcher

variable {m : Matcher} {call : String → Nat → Step Node}

/-- Every rule that `call` matches has a derivation for its node. -/
def Sound (m : Matcher) (call : String → Nat → Step Node) : Prop :=
  ∀ name c n d, (call name c).outcome = .matched n d →
    Forest m.grammar m.input [.rule name] c d [n]

theorem forest_of_taken {i : Item} {token : Token} {c : Nat} (hi : m.input[c]? = some token)
    (ht : takes i token) : Forest m.grammar m.input [i] c (c + 1) [leaf c token] := by
  cases i with
  | terminal text => exact .terminal hi (by simpa [takes] using ht) .nil
  | lexical k => exact .lexical hi ht .nil
  | rule | many => cases ht

theorem forest_of_iterate {first : Option Item} {body : List Item} {turn : Nat → Step (List Node)}
    (hb : ∀ c ns d, (turn c).outcome = .matched ns d → Forest m.grammar m.input body c d ns)
    {limit c d : Nat} {ns : List Node}
    (h : (m.iterate first turn limit c).outcome = .matched ns d) :
    Forest m.grammar m.input [.many body] c d ns := by
  induction limit generalizing c ns with
  | zero =>
    rw [iterate_zero] at h
    cases h
    exact .done .nil
  | succ limit ih =>
    cases iterate_turn h with
    | closed | undone => exact .done .nil
    | idle _ hu => simpa using Forest.again (hb _ _ _ hu) (.done .nil)
    | onward _ hu _ ho =>
      obtain ⟨vs, hv, rfl⟩ := Outcome.map_eq_matched.mp ho
      exact .again (hb _ _ _ hu) (ih hv)

theorem forest_of_sequence (hs : m.Sound call) (items : List Item) {c d : Nat} {ns : List Node}
    (h : (m.sequence call items c).outcome = .matched ns d) :
    Forest m.grammar m.input items c d ns := by
  induction items using Grammar.items_induction generalizing c d ns with
  | nil =>
    rw [sequence_nil] at h
    cases h
    exact .nil
  | single i rest hi ih =>
    obtain ⟨us, b, vs, hu, hv, rfl⟩ := Step.matched_of_andThen (sequence_cons rest ▸ h)
    rcases item_single m call c hi with ⟨token, hin, ht, he⟩ | ⟨_, he⟩
    · rw [he] at hu
      cases hu
      exact (forest_of_taken hin ht).append (ih hv)
    · rw [he] at hu
      cases hu
  | rule name rest ih =>
    obtain ⟨us, b, vs, hu, hv, rfl⟩ := Step.matched_of_andThen (sequence_cons rest ▸ h)
    by_cases hc : c < m.input.size
    · rw [item_rule name hc, Step.outcome_map, Outcome.map_eq_matched] at hu
      obtain ⟨n, hn, rfl⟩ := hu
      exact (hs name c n b hn).append (ih hv)
    · rw [item_rule_end name hc] at hu
      cases hu
  | many body rest ihb ihr =>
    obtain ⟨us, b, vs, hu, hv, rfl⟩ := Step.matched_of_andThen (sequence_cons rest ▸ h)
    rw [item_many] at hu
    exact (forest_of_iterate (fun _ _ _ hb => ihb hb) hu).append (ihr hv)

theorem le_of_sequence (hs : m.Sound call) (items : List Item) :
    ∀ c ns d, (m.sequence call items c).outcome = .matched ns d → c ≤ d := by
  intro c ns d h
  exact (forest_of_sequence hs items h).le

theorem sound_rule (m : Matcher) (depth : Nat) : m.Sound (m.rule depth) := by
  induction depth with
  | zero =>
    intro name c n d h
    rw [rule_zero] at h
    cases h
  | succ depth ih =>
    intro name c n d h
    rw [rule_succ] at h
    obtain ⟨v, hv, us, hu, rfl⟩ := matched_of_choose h
    exact .rule hv (forest_of_sequence ih v.items hu) .nil

/-- A rule that fails has the verdict to show for it. -/
theorem verdict_of_stuck {depth : Nat} {name : String} {c : Nat} {n : Node} {e : Mismatch}
    (h : (m.rule depth name c).outcome = .stuck n e) : n.verdict = .failure := by
  cases depth with
  | zero =>
    rw [rule_zero] at h
    cases h
  | succ depth =>
    rw [rule_succ] at h
    obtain ⟨f, hf⟩ := stuck_of_choose h
    cases hf
    rfl

end Matcher

variable {g : Grammar} {lexicon : Lexicon} {lexemes : List Lexeme}

@[simp] theorem grammar_matcher : (matcher g lexicon lexemes).grammar = g := rfl

@[simp] theorem toList_matcher_input :
    (matcher g lexicon lexemes).input.toList = lexemes.map (Token.ofLexeme lexicon) := by
  simp [matcher]

@[simp] theorem size_matcher_input : (matcher g lexicon lexemes).input.size = lexemes.length := by
  simp [matcher]

/-- The lexemes from the end of a span on are left over. -/
theorem ignoredNode?_consumed {next : Nat} :
    ignoredNode? lexemes ((Span.consumed 0 next).elim 0 (·.last + 1)) = none ↔
      lexemes.length ≤ next := by
  have hn : (Span.consumed 0 next).elim 0 (·.last + 1) = next := by
    by_cases h : 0 < next
    · simp [Span.consumed, h, Nat.sub_add_cancel h]
    · simp [Span.consumed, Nat.eq_zero_of_not_pos h]
  rw [hn, ignoredNode?, Option.map_eq_none_iff, List.getElem?_eq_none_iff]

theorem derives_of_isSuccess {parsed : Parsed} (h : parse g lexicon lexemes = some parsed)
    (hs : parsed.tree.isSuccess = true) :
    Derives g [.rule g.main] (lexemes.map (Token.ofLexeme lexicon)) := by
  unfold parse at h
  dsimp only at h
  split at h
  · rename_i root next ho
    cases h
    have hf := (matcher g lexicon lexemes).sound_rule _ _ _ _ _ ho
    simp only [Parsed.ofRoot, Tree.isSuccess, Bool.and_eq_true, Option.isNone_iff_eq_none] at hs
    cases hf with
    | rule hv hd hr =>
      cases hr
      have hl := ignoredNode?_consumed.mp hs.2
      have hg := (Forest.rule hv hd .nil).derives
      simpa [List.take_of_length_le, hl] using hg
  · rename_i root e ho
    cases h
    simp [Parsed.ofRoot, Tree.isSuccess, Matcher.verdict_of_stuck ho] at hs
  · cases h

theorem derives_of_analyze {rules : LexicalRules} {source : String} {a : Analysis}
    (h : analyze rules g lexicon source = some a) (hs : a.isSuccess = true) :
    Derives g [.rule g.main] (a.lexemes.map (Token.ofLexeme a.lexicon)) := by
  obtain ⟨parsed, hp, rfl⟩ := Option.map_eq_some_iff.mp h
  simp only [Analysis.isSuccess, Bool.and_eq_true, Option.isNone_iff_eq_none] at hs
  rw [hs.1] at hs
  exact derives_of_isSuccess hp hs.2

theorem analyze_of_exitCode {l : Language} {source : String}
    (h : (Command.analyzeSource l source).exitCode = 0) :
    ∃ a, l.analyze source = some a ∧ a.isSuccess = true := by
  unfold Command.analyzeSource at h
  split at h
  · cases h
  · rename_i a ha
    refine ⟨a, ha, ?_⟩
    cases hs : a.isSuccess
    · simp [Command.Report.exitCode, hs] at h
    · rfl

/-- A matched rule is derived by the lexemes that it consumed, and its node says how: one variant,
its items in order and the lexemes below it from left to right, none left out and none twice. So a
success, and with it the exit code 0, means that the main rule derives all the lexemes. -/
theorem acceptance_sound (g : Grammar) (lexicon : Lexicon) (lexemes : List Lexeme) :
    (∀ depth name b node e,
      ((matcher g lexicon lexemes).rule depth name b).outcome = .matched node e →
        b ≤ e ∧
        Derives g [.rule name] (((lexemes.drop b).take (e - b)).map (Token.ofLexeme lexicon)) ∧
        (∃ v ∈ g.variants name, ∃ child,
          node.description = name ∧ node.children = [child] ∧
          child.description = name ++ " ::= " ++ v.text ∧
          Forest g (matcher g lexicon lexemes).input v.items b e child.children) ∧
        node.leaves = ((lexemes.zipIdx.drop b).take (e - b)).map
          fun (x, i) => { description := x.text, span := some (.single i) }) ∧
    (∀ parsed, parse g lexicon lexemes = some parsed → parsed.tree.isSuccess = true →
      Derives g [.rule g.main] (lexemes.map (Token.ofLexeme lexicon))) ∧
    (∀ rules source a, analyze rules g lexicon source = some a → a.isSuccess = true →
      Derives g [.rule g.main] (a.lexemes.map (Token.ofLexeme a.lexicon))) ∧
    ∀ rules source, (Command.analyzeSource ⟨rules, g⟩ source).exitCode = 0 →
      ∃ a, Language.analyze ⟨rules, g⟩ source = some a ∧
        Derives g [.rule g.main] (a.lexemes.map (Token.ofLexeme a.lexicon)) := by
  refine ⟨?_, fun _ => derives_of_isSuccess, fun _ _ _ => derives_of_analyze, ?_⟩
  · intro depth name b node e h
    have hf := (matcher g lexicon lexemes).sound_rule depth name b node e h
    have hl := hf.leaves
    have hd := hf.derives
    refine ⟨hf.le, ?_, ?_, ?_⟩
    · simpa using hd
    · cases hf with
      | rule hv hd hr =>
        cases hr
        exact ⟨_, hv, _, rfl, rfl, rfl, hd⟩
    · simpa [List.zipIdx_map, Token.ofLexeme, Function.comp_def] using hl
  · intro rules source h
    obtain ⟨a, ha, hs⟩ := analyze_of_exitCode h
    exact ⟨a, ha, derives_of_analyze ha hs⟩

/-- Lists of identifiers and lists, in parentheses. -/
def lists : Grammar :=
  ⟨[⟨"List", [⟨[.terminal "(", .many [.rule "List"], .terminal ")"], "( [ \x7bList\x7d ] )"⟩,
      ⟨[.lexical .identifier], "\x7bIdentifier\x7d"⟩]⟩], "List"⟩

def listsLexicon : Lexicon :=
  { Lexicon.seeded [] ["(", ")"] with identifiers := .ofList ["a"] }

/-- The lexemes of `(a())`. -/
def nestedList : List Lexeme :=
  [⟨.separator, 0, "(", 1, 1, 1⟩, ⟨.identifier, 0, "a", 1, 2, 2⟩, ⟨.separator, 0, "(", 1, 3, 3⟩,
    ⟨.separator, 1, ")", 1, 4, 4⟩, ⟨.separator, 1, ")", 1, 5, 5⟩]

def listsRules : LexicalRules := { words := [], separators := ["(", ")"] }

theorem acceptance_sound_nestedList :
    (∃ node, ((matcher lists listsLexicon nestedList).rule 2 "List" 2).outcome = .matched node 4 ∧
      node.leaves.map Node.description = ["(", ")"]) ∧
    (∃ parsed, parse lists listsLexicon nestedList = some parsed ∧
      parsed.tree.isSuccess = true) ∧
    Derives lists [.rule "List"] (nestedList.map (Token.ofLexeme listsLexicon)) ∧
    (Command.analyzeSource ⟨listsRules, lists⟩ "(a())").exitCode = 0 ∧
    ∃ a, Language.analyze ⟨listsRules, lists⟩ "(a())" = some a ∧
      Derives lists [.rule "List"] (a.lexemes.map (Token.ofLexeme a.lexicon)) := by
  have hs := acceptance_sound lists listsLexicon nestedList
  obtain ⟨node, hn⟩ : ∃ node,
      ((matcher lists listsLexicon nestedList).rule 2 "List" 2).outcome = .matched node 4 :=
    ⟨_, rfl⟩
  obtain ⟨parsed, hp, ht⟩ : ∃ parsed, parse lists listsLexicon nestedList = some parsed ∧
      parsed.tree.isSuccess = true := ⟨_, rfl, rfl⟩
  have he : (Command.analyzeSource ⟨listsRules, lists⟩ "(a())").exitCode = 0 := by
    decide +kernel
  refine ⟨⟨node, hn, ?_⟩, ⟨parsed, hp, ht⟩, hs.2.1 parsed hp ht, he, hs.2.2.2 _ _ he⟩
  rw [(hs.1 _ _ _ _ _ hn).2.2.2]
  rfl

end Descent.Parse
