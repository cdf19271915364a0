import Descent.Proofs.Grammar.LeftRecursion
import Descent.Proofs.Parse.Soundness
import Mathlib.Tactic.Ring
import Mathlib.Tactic.GCongr

/-!
A match ends on every grammar without left recursion. Along nested calls of rules either a lexeme is
taken or the callee comes to fewer rules in place than the caller; along a repetition every
iteration but the last takes a lexeme. More depth or more iterations than that change nothing.
-/
namespace Descent.Parse

open Grammar (Item Variant)

variable {g : Grammar} {input : Array Token} {items : List Item}

theorem nullable_of_derives {w : List Token} (h : Derives g items w) (hw : w = []) :
    g.Nullable items := by
  induction h with
  | nil => exact .nil
  | terminal | lexical => cases hw
  | rule hv _ _ ihd ihr =>
    obtain ⟨hu, hw⟩ := List.append_eq_nil_iff.mp hw
    exact .rule hv (ihd hu) (ihr hw)
  | done _ ih => exact .many (ih hw)
  | again _ _ _ ihr => exact ihr (List.append_eq_nil_iff.mp hw).2

theorem Forest.nullable {b : Nat} {ns : List Node} (h : Forest g input items b b ns) :
    g.Nullable items :=
  nullable_of_derives h.derives (by simp)

namespace Matcher

variable {m : Matcher} {call call' : String → Nat → Step Node} {first : Option Item}
  {body body' : Nat → Step (List Node)} {c d limit : Nat} {name : String}

theorem andThen_extend {s s' : Step (List Node)} {k k' : Nat → Step (List Node)}
    (hs : s.outcome ≠ .unfinished → s' = s)
    (hk : ∀ c, (k c).outcome ≠ .unfinished → k' c = k c)
    (h : (s.andThen k).outcome ≠ .unfinished) : s'.andThen k' = s.andThen k := by
  cases ho : s.outcome with
  | matched us c =>
    rw [Step.andThen_matched ho, ne_eq, Outcome.map_eq_unfinished] at h
    rw [hs (by simp [ho])]
    simp [Step.andThen, ho, hk c h]
  | stuck us e =>
    rw [hs (by simp [ho]), Step.andThen_stuck ho, Step.andThen_stuck ho]
  | unfinished =>
    rw [Step.andThen_unfinished ho] at h
    exact (h ho).elim

theorem iterate_extend (hb : ∀ c, (body c).outcome ≠ .unfinished → body' c = body c)
    (h : (m.iterate first body limit c).outcome ≠ .unfinished) :
    m.iterate first body' limit c = m.iterate first body limit c := by
  induction limit generalizing c with
  | zero => rw [iterate_zero, iterate_zero]
  | succ limit ih =>
    by_cases ho : c < m.input.size ∧ m.admits first c
    · have hbc : (body c).outcome ≠ .unfinished := by
        intro hu
        rw [iterate_succ, turn, if_pos ho, hu] at h
        exact h hu
      rw [iterate_succ, iterate_succ]
      apply turn_congr (hb c hbc)
      intro us d hm hd
      rw [iterate_succ, turn, if_pos ho, hm] at h
      exact ih (by simpa [hd] using h)
    · rw [iterate_succ, iterate_succ, turn, turn, if_neg ho, if_neg ho]

theorem sequence_extend
    (hc : ∀ name c, (call name c).outcome ≠ .unfinished → call' name c = call name c)
    (items : List Item) (c : Nat) (h : (m.sequence call items c).outcome ≠ .unfinished) :
    m.sequence call' items c = m.sequence call items c := by
  induction items using Grammar.items_induction generalizing c with
  | nil => rw [sequence_nil, sequence_nil]
  | single i rest hi ih =>
    rw [sequence_cons] at h
    rw [sequence_cons, sequence_cons]
    refine andThen_extend (fun _ => ?_) ih h
    rcases item_single m call c hi with ⟨token, hin, ht, _⟩ | ⟨ht, _⟩
    · rw [item_taken hin ht, item_taken hin ht]
    · rw [item_refused hi ht, item_refused hi ht]
  | rule name rest ih =>
    rw [sequence_cons] at h
    rw [sequence_cons, sequence_cons]
    refine andThen_extend (fun hne => ?_) ih h
    by_cases hlt : c < m.input.size
    · rw [item_rule name hlt] at hne
      rw [item_rule name hlt, item_rule name hlt, hc name c (by simpa using hne)]
    · rw [item_rule_end name hlt, item_rule_end name hlt]
  | many body rest ihb ihr =>
    rw [sequence_cons] at h
    rw [sequence_cons, sequence_cons]
    refine andThen_extend (fun hne => ?_) ihr h
    rw [item_many] at hne
    rw [item_many, item_many]
    exact iterate_extend ihb hne

theorem choose_extend
    (hc : ∀ name c, (call name c).outcome ≠ .unfinished → call' name c = call name c)
    {vs : List Variant} {f : Failures}
    (h : (m.choose call name c vs f).outcome ≠ .unfinished) :
    m.choose call' name c vs f = m.choose call name c vs f := by
  induction vs generalizing f with
  | nil => rw [choose_nil, choose_nil]
  | cons v rest ih =>
    rw [choose] at h
    rw [choose, choose]
    split
    · rename_i ha
      have hv : (m.sequence call v.items c).outcome ≠ .unfinished := by
        intro hu
        simp [ha, hu] at h
      rw [sequence_extend hc v.items c hv]
      cases ho : (m.sequence call v.items c).outcome with
      | matched us d => simp [ho]
      | stuck us e => simp [ho, ih (by simpa [ha, ho] using h)]
      | unfinished => exact (hv ho).elim
    · rename_i ha
      exact ih (by simpa [ha] using h)

theorem rule_extend (depth : Nat) (name : String) (c : Nat)
    (h : (m.rule depth name c).outcome ≠ .unfinished) :
    m.rule (depth + 1) name c = m.rule depth name c := by
  induction depth generalizing name c with
  | zero =>
    rw [rule_zero] at h
    exact (h rfl).elim
  | succ depth ih =>
    rw [rule_succ] at h
    rw [rule_succ, rule_succ depth]
    exact choose_extend ih h

theorem rule_of_le {depth depth' : Nat} (hd : depth ≤ depth')
    (h : (m.rule depth name c).outcome ≠ .unfinished) :
    m.rule depth' name c = m.rule depth name c := by
  induction depth', hd using Nat.le_induction with
  | base => rfl
  | succ depth' _ ih => rw [rule_extend depth' name c (by rwa [ih]), ih]

/-- Calls end at later lexemes, and where the items can call in place. -/
def Backed (m : Matcher) (call : String → Nat → Step Node) (items : List Item) (c : Nat) : Prop :=
  ∀ name d, d < m.input.size → c < d ∨ c = d ∧ m.grammar.Leads items name →
    (call name d).outcome ≠ .unfinished

theorem Backed.later {items' : List Item} (h : m.Backed call items c) (hcd : c < d) :
    m.Backed call items' d := by
  intro name e he hde
  exact h name e he (Or.inl (by omega))

theorem Backed.mono {items' : List Item} (h : m.Backed call items c)
    (hl : ∀ name, m.grammar.Leads items' name → m.grammar.Leads items name) :
    m.Backed call items' c := by
  intro name d hd hcd
  exact h name d hd (hcd.imp_right fun ⟨hq, hn⟩ => ⟨hq, hl name hn⟩)

theorem iterate_finishes (hb : ∀ d, c ≤ d → (body d).outcome ≠ .unfinished)
    (hp : ∀ c us d, (body c).outcome = .matched us d → c ≤ d) :
    (m.iterate first body limit c).outcome ≠ .unfinished := by
  induction limit generalizing c with
  | zero => simp
  | succ limit ih =>
    intro h
    cases iterate_turn h with
    | onward _ hu _ ho =>
      have hcd := hp _ _ _ hu
      exact ih (fun e he => hb e (by omega)) (Outcome.map_eq_unfinished.mp ho)
    | unfinished _ hu => exact hb c le_rfl hu

theorem sequence_finishes (hs : m.Sound call) (items : List Item) (hb : m.Backed call items c) :
    (m.sequence call items c).outcome ≠ .unfinished := by
  induction items using Grammar.items_induction generalizing c with
  | nil => simp
  | single i rest hi ih =>
    rw [sequence_cons]
    rcases item_single m call c hi with ⟨token, _, _, he⟩ | ⟨_, he⟩
    · rw [he, Step.andThen_matched rfl, ne_eq, Outcome.map_eq_unfinished]
      exact ih (hb.later (Nat.lt_succ_self c))
    · rw [he, Step.andThen_stuck rfl]
      simp
  | rule name rest ih =>
    rw [sequence_cons]
    by_cases hc : c < m.input.size
    · rw [item_rule name hc]
      have hne := hb name c hc (Or.inr ⟨rfl, .call⟩)
      apply Step.andThen_finishes (by simpa using hne)
      intro us d ho
      obtain ⟨n, hn, rfl⟩ := Outcome.map_eq_matched.mp ho
      have hf := hs name c n d hn
      rcases Nat.eq_or_lt_of_le hf.le with rfl | hcd
      · cases hf.nullable with
        | rule hv hn _ => exact ih (hb.mono fun _ => .afterRule hv hn)
      · exact ih (hb.later hcd)
    · rw [item_rule_end name hc, Step.andThen_stuck rfl]
      simp
  | many body rest ihb ihr =>
    rw [sequence_cons, item_many]
    apply Step.andThen_finishes
    · refine iterate_finishes (fun d hcd => ?_) (le_of_sequence hs body)
      rcases Nat.eq_or_lt_of_le hcd with rfl | hcd
      · exact ihb (hb.mono fun _ => .body)
      · exact ihb (hb.later hcd)
    · intro us d ho
      have hf := forest_of_iterate (fun _ _ _ h => forest_of_sequence hs body h) ho
      rcases Nat.eq_or_lt_of_le hf.le with rfl | hcd
      · exact ihr (hb.mono fun _ => .afterMany)
      · exact ihr (hb.later hcd)

theorem choose_finishes {vs : List Variant} {f : Failures}
    (hv : ∀ v ∈ vs, (m.sequence call v.items c).outcome ≠ .unfinished) :
    (m.choose call name c vs f).outcome ≠ .unfinished := by
  induction vs generalizing f with
  | nil => simp [rejected]
  | cons v rest ih =>
    intro h
    cases choose_attempt h with
    | pruned _ hp | failed _ _ hp => exact ih (fun w hw => hv w (List.mem_cons_of_mem v hw)) hp
    | unfinished _ hu => exact hv v List.mem_cons_self hu

/-- A depth at which the match of a rule ends: the lexemes left count for all the rules, and the
rules that can be called in place come on top. -/
noncomputable def need (m : Matcher) (name : String) (c : Nat) : Nat :=
  (m.input.size - c) * m.grammar.rules.length + (m.grammar.reach name).card + 1

theorem need_le_depthBound (m : Matcher) (name : String) (c : Nat) :
    m.need name c ≤ m.depthBound := by
  have hr := m.grammar.card_reach_le name
  calc m.need name c
      ≤ (m.input.size - c) * m.grammar.rules.length + m.grammar.rules.length + 1 := by
        unfold need
        omega
    _ = m.grammar.rules.length * (m.input.size - c + 1) + 1 := by ring
    _ ≤ m.grammar.rules.length * (m.input.size + 1) + 1 := by gcongr; omega
    _ = m.depthBound := rfl

/-- A call at a later lexeme needs less depth, and so does a call in place. -/
theorem need_lt {v : Variant} {callee : String} (h : ¬ m.grammar.LeftRecursive)
    (hv : v ∈ m.grammar.variants name) (hd : d < m.input.size)
    (hc : c < d ∨ c = d ∧ m.grammar.Leads v.items callee) : m.need callee d < m.need name c := by
  unfold need
  rcases hc with hcd | ⟨rfl, hl⟩
  · have hself := Finset.card_pos.mpr ⟨name, Grammar.self_mem_reach hv⟩
    have hr := m.grammar.card_reach_le callee
    have hm := Nat.mul_le_mul_right m.grammar.rules.length
      (show m.input.size - d + 1 ≤ m.input.size - c by omega)
    rw [Nat.add_mul, Nat.one_mul] at hm
    omega
  · have hr := Grammar.card_reach_lt h ⟨v, hv, hl⟩
    omega

theorem rule_finishes (h : ¬ m.grammar.LeftRecursive) {depth : Nat} (hd : m.need name c ≤ depth) :
    (m.rule depth name c).outcome ≠ .unfinished := by
  induction depth generalizing name c with
  | zero => simp [need] at hd
  | succ depth ih =>
    rw [rule_succ]
    apply choose_finishes
    intro v hv
    apply sequence_finishes (m.sound_rule depth)
    intro callee d hd' hc
    have hn := need_lt h hv hd' hc
    exact ih (by omega)

/-- At the depth of the bound and beyond, every match has ended. -/
theorem rule_depthBound (h : ¬ m.grammar.LeftRecursive) (name : String) (c : Nat) {depth : Nat}
    (hd : m.depthBound ≤ depth) :
    (m.rule m.depthBound name c).outcome ≠ .unfinished ∧
      m.rule depth name c = m.rule m.depthBound name c := by
  have hf := rule_finishes h (m.need_le_depthBound name c)
  exact ⟨hf, rule_of_le hd hf⟩

end Matcher

variable {lexicon : Lexicon} {lexemes : List Lexeme}

/-- The parse with rules nested at most `depth` deep. -/
def parseWithin (depth : Nat) (grammar : Grammar) (lexicon : Lexicon) (lexemes : List Lexeme) :
    Option Parsed :=
  let s := (matcher grammar lexicon lexemes).rule depth grammar.main 0
  match s.outcome with
  | .matched root _ | .stuck root _ => some (.ofRoot lexemes root s.events)
  | .unfinished => none

theorem parse_eq_parseWithin : parse g lexicon lexemes =
    parseWithin (matcher g lexicon lexemes).depthBound g lexicon lexemes := rfl

theorem parse_eq_none_iff : parse g lexicon lexemes = none ↔
    ((matcher g lexicon lexemes).rule (matcher g lexicon lexemes).depthBound g.main 0).outcome =
      .unfinished := by
  unfold parse
  dsimp only
  split <;> simp_all

/-- A grammar without left recursion has a parse of every list of lexemes, the same at every depth
from a bound on. Nor is it the limit on its iterations that ends a repetition. -/
theorem parse_terminates {g : Grammar} (h : ¬ g.LeftRecursive) (lexicon : Lexicon)
    (lexemes : List Lexeme) :
    (∃ parsed, parse g lexicon lexemes = some parsed ∧
      ∀ depth, (matcher g lexicon lexemes).depthBound ≤ depth →
        parseWithin depth g lexicon lexemes = some parsed) ∧
    ∀ depth body c limit, lexemes.length - c ≤ limit →
      (matcher g lexicon lexemes).iterate (Grammar.first? body)
          ((matcher g lexicon lexemes).sequence ((matcher g lexicon lexemes).rule depth) body)
          limit c =
        (matcher g lexicon lexemes).item ((matcher g lexicon lexemes).rule depth) (.many body) c := by
  constructor
  · have hb := @Matcher.rule_depthBound (matcher g lexicon lexemes) h g.main 0
    cases hp : parse g lexicon lexemes with
    | none => exact ((hb le_rfl).1 (parse_eq_none_iff.mp hp)).elim
    | some parsed =>
      refine ⟨parsed, rfl, fun depth hd => ?_⟩
      rw [← hp, parse_eq_parseWithin, parseWithin, parseWithin, (hb hd).2]
  · intro depth body c limit hl
    have hs := (matcher g lexicon lexemes).sound_rule depth
    rw [Matcher.item_many]
    apply Matcher.iterate_limit (Matcher.le_of_sequence hs body) le_rfl
    simpa [matcher] using hl

/-- Calls after any number of labels. The rule of labels is nullable, so both it and the rule after
it are called in place. -/
def labelled : Grammar :=
  ⟨[⟨"Program", [⟨[.rule "Labels", .rule "Call"], "\x7bLabels\x7d \x7bCall\x7d"⟩]⟩,
    ⟨"Labels", [⟨[.many [.rule "Label"]], "[ \x7bLabel\x7d ]"⟩]⟩,
    ⟨"Label", [⟨[.lexical .number], "\x7bNumber\x7d"⟩]⟩,
    ⟨"Call", [⟨[.lexical .identifier, .terminal "(", .many [.rule "Call"], .terminal ")"],
      "\x7bIdentifier\x7d ( [ \x7bCall\x7d ] )"⟩]⟩], "Program"⟩

theorem not_leftRecursive_labelled : ¬ labelled.LeftRecursive := by
  apply Grammar.not_leftRecursive_of_rank fun name =>
    if name = "Program" then 2 else if name = "Labels" then 1 else 0
  rintro a b ⟨v, hv, hl⟩
  obtain ⟨r, hr, rfl, he⟩ := Grammar.rule_of_mem_variants hv
  rw [he] at hv
  simp only [labelled, List.mem_cons, List.not_mem_nil, or_false] at hr
  rcases hr with rfl | rfl | rfl | rfl <;> obtain rfl := List.mem_singleton.mp hv <;> simp at hl
  · rcases hl with rfl | ⟨_, rfl⟩ <;> simp
  · subst hl
    simp

theorem parse_terminates_labelled : ¬ labelled.LeftRecursive ∧
    ∃ parsed, parse labelled listsLexicon nestedList = some parsed ∧
      ∀ depth, 25 ≤ depth → parseWithin depth labelled listsLexicon nestedList = some parsed := by
  have ht := parse_terminates not_leftRecursive_labelled listsLexicon nestedList
  exact ⟨not_leftRecursive_labelled, ht.1⟩

theorem items_of_mem_lists {v : Variant} {name : String} (hv : v ∈ lists.variants name) :
    v.items = [.terminal "(", .many [.rule "List"], .terminal ")"] ∨
      v.items = [.lexical .identifier] := by
  obtain ⟨r, hr, rfl, he⟩ := Grammar.rule_of_mem_variants hv
  rw [he] at hv
  obtain rfl := List.mem_singleton.mp hr
  simp only [List.mem_cons, List.not_mem_nil, or_false] at hv
  rcases hv with rfl | rfl <;> simp

theorem not_leftRecursive_lists : ¬ lists.LeftRecursive := by
  apply Grammar.not_leftRecursive_of_rank fun _ => 0
  rintro a b ⟨v, hv, hl⟩
  rcases items_of_mem_lists hv with hi | hi <;> simp [hi] at hl

theorem noLeadingMany_lists : lists.NoLeadingMany := by
  unfold Grammar.NoLeadingMany
  decide

end Descent.Parse
