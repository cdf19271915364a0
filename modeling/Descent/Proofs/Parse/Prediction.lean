import Descent.Proofs.Grammar.Compiled
import Descent.Proofs.Parse.FirstFollow
import Descent.Proofs.Parse.Termination
import Mathlib

/-!
On a predictive grammar the matcher loses nothing by taking the first variant that matches and by
never giving back an iteration: a lexeme that cannot begin a sequence makes it fail at once, so the
only way that is left is the one that the derivation takes.
-/
namespace Descent.Parse

open Grammar (Item Variant)

namespace Matcher

variable {m : Matcher} {call : String → Nat → Step Node} {items rest k : List Item} {i : Item}
  {u post : List Token} {t : Token} {name : String} {c d e : Nat} {us ns : List Node}

theorem first_of_takes (ht : takes i t) : First m.grammar (i :: rest) t := by
  cases i with
  | terminal => exact .terminal (by simpa [takes] using ht)
  | lexical => exact .lexical ht
  | rule | many => cases ht

/-- A sequence that the lexeme can begin is entered. -/
theorem admits_of_first (hi : m.input[c]? = some t) (hs : Solid items)
    (hf : First m.grammar items t) : m.admits (Grammar.first? items) c := by
  cases hf with
  | terminal ht => simp [admits, Grammar.first?, Item.first?, hi, takes, ht]
  | lexical ht => simp [admits, Grammar.first?, Item.first?, hi, takes, ht]
  | rule => simp [admits, Grammar.first?, Item.first?, hi]
  | body | past => cases hs.2

/-- A match that does not end or fails at the lexeme where it begins. -/
def Fruitless {α : Type} (o : Outcome α) (c : Nat) : Prop :=
  o = .unfinished ∨ ∃ a e, o = .stuck a e ∧ e.reached = c

theorem Fruitless.map {α β : Type} {o : Outcome α} (h : Fruitless o c) (f : α → β) :
    Fruitless (o.map f) c := by
  rcases h with rfl | ⟨a, e, rfl, he⟩
  · exact Or.inl rfl
  · exact Or.inr ⟨f a, e, rfl, he⟩

theorem Fruitless.andThen {s : Step (List Node)} (h : Fruitless s.outcome c)
    (k : Nat → Step (List Node)) : Fruitless (s.andThen k).outcome c := by
  rcases h with hu | ⟨us, e, hu, he⟩
  · rw [Step.andThen_unfinished hu]
    exact Or.inl hu
  · rw [Step.andThen_stuck hu]
    exact Or.inr ⟨us, e, hu, he⟩

theorem fruitless_choose {vs : List Variant} {f : Failures}
    (hv : ∀ v ∈ vs, Fruitless (m.sequence call v.items c).outcome c) (hf : f.reached = c) :
    Fruitless (m.choose call name c vs f).outcome c := by
  induction vs generalizing f with
  | nil =>
    rw [choose_nil]
    exact Or.inr ⟨_, _, rfl, hf⟩
  | cons v rest ih =>
    have hr : ∀ w ∈ rest, Fruitless (m.sequence call w.items c).outcome c := by
      intro w hw
      exact hv w (List.mem_cons_of_mem v hw)
    by_cases ha : m.admits (Grammar.first? v.items) c
    · rcases hv v List.mem_cons_self with hu | ⟨us, e, hu, he⟩
      · exact Or.inl (choose_unfinished ha hu)
      · rw [choose_failed ha hu]
        apply ih hr
        change max f.reached e.reached = c
        omega
    · rw [choose_pruned ha]
      exact ih hr hf

theorem fruitless_sequence (hi : m.input[c]? = some t)
    (hc : ∀ name, ¬ First m.grammar [.rule name] t → Fruitless (call name c).outcome c)
    (hs : Solid items) (hf : ¬ First m.grammar items t) :
    Fruitless (m.sequence call items c).outcome c := by
  obtain ⟨hlt, _⟩ := Array.getElem?_eq_some_iff.mp hi
  cases items with
  | nil => exact (hs.1 rfl).elim
  | cons i rest =>
    rw [sequence_cons]
    apply Fruitless.andThen
    have hr (h : i.isSingle) :
        m.item call i c = ⟨.stuck [] (m.mismatch (expected i) c), []⟩ :=
      item_refused h fun t' hi' ht' =>
        hf (first_of_takes (Option.some.inj (hi.symm.trans hi') ▸ ht'))
    cases i with
    | terminal | lexical =>
      rw [hr rfl]
      exact Or.inr ⟨_, _, rfl, rfl⟩
    | rule name =>
      rw [item_rule name hlt]
      exact (hc name fun h => hf h.append).map _
    | many => cases hs.2

/-- A lexeme that cannot begin a rule makes it fail at once, with all the rules nested in it. -/
theorem fruitless_rule (hg : ∀ s ∈ m.grammar.sequences, Solid s) (hi : m.input[c]? = some t)
    (depth : Nat) (name : String) (hf : ¬ First m.grammar [.rule name] t) :
    Fruitless (m.rule depth name c).outcome c := by
  induction depth generalizing name with
  | zero => exact Or.inl (by rw [rule_zero])
  | succ depth ih =>
    rw [rule_succ]
    refine fruitless_choose ?_ rfl
    intro v hv
    exact fruitless_sequence hi ih (solid_of_variant hg hv) (fun h => hf (.rule hv h))

/-- The variant that the lexeme can begin is the one that is taken. -/
theorem matched_of_first {vs : List Variant} {v : Variant} {f : Failures} (hv : v ∈ vs)
    (hi : m.input[c]? = some t) (hs : Solid v.items) (hf : First m.grammar v.items t)
    (hm : (m.sequence call v.items c).outcome = .matched us d)
    (hd : vs.Pairwise fun v w => First m.grammar v.items t → ¬ First m.grammar w.items t)
    (hw : ∀ w ∈ vs, ¬ First m.grammar w.items t →
      ∃ us e, (m.sequence call w.items c).outcome = .stuck us e) :
    ∃ n, (m.choose call name c vs f).outcome = .matched n d := by
  induction vs generalizing f with
  | nil => cases hv
  | cons w rest ih =>
    obtain ⟨hhead, htail⟩ := List.pairwise_cons.mp hd
    rcases List.mem_cons.mp hv with rfl | hv
    · exact ⟨_, choose_matched (admits_of_first hi hs hf) hm⟩
    · have hr : ∀ f, ∃ n, (m.choose call name c rest f).outcome = .matched n d := by
        intro f
        apply ih hv htail
        intro x hx
        exact hw x (List.mem_cons_of_mem w hx)
      by_cases ha : m.admits (Grammar.first? w.items) c
      · obtain ⟨us, e, hu⟩ := hw w List.mem_cons_self fun h => hhead v hv h hf
        rw [choose_failed ha hu]
        exact hr _
      · rw [choose_pruned ha]
        exact hr f

theorem closed_of_stuck {first : Option Item} {body again : Nat → Step (List Node)}
    (hb : c < m.input.size → ∃ us e, (body c).outcome = .stuck us e ∧ e.reached = c) :
    (m.turn first body again c).outcome = .matched [] c := by
  by_cases hc : c < m.input.size ∧ m.admits first c
  · obtain ⟨us, e, hu, he⟩ := hb hc.1
    simp [turn, hc, hu, he]
  · simp [turn, hc]

theorem getElem?_of_drop (hd : m.input.toList.drop c = u ++ post) (ht : t ∈ (u ++ post).head?) :
    m.input[c]? = some t := by
  rw [← Array.getElem?_toList, ← List.head?_drop, hd]
  exact ht

theorem exists_head_of_drop (hd : m.input.toList.drop c = u ++ post) (hu : u ≠ []) :
    ∃ t ∈ u.head?, m.input[c]? = some t ∧ c < m.input.size := by
  obtain ⟨t, rest, rfl⟩ := List.exists_cons_of_ne_nil hu
  have hi := getElem?_of_drop hd rfl
  exact ⟨t, rfl, hi, (Array.getElem?_eq_some_iff.mp hi).1⟩

theorem drop_of_drop {l : List Token} (hd : l.drop c = u ++ post) :
    l.drop (c + u.length) = post := by
  rw [← List.drop_drop, hd, List.drop_left]

theorem sequence_matched (hi : (m.item call i c).outcome = .matched us d)
    (hr : (m.sequence call rest d).outcome = .matched ns e) :
    (m.sequence call (i :: rest) c).outcome = .matched (us ++ ns) e := by
  rw [sequence_cons, Step.andThen_matched hi, hr]
  rfl

theorem sequence_taken (hi : m.input[c]? = some t) (ht : takes i t)
    (hr : (m.sequence call rest (c + 1)).outcome = .matched ns d) :
    (m.sequence call (i :: rest) c).outcome = .matched (leaf c t :: ns) d :=
  sequence_matched (by rw [item_taken hi ht]) hr

/-- Beyond the bound on the depth, more depth makes no difference. -/
theorem rule_fixed (hl : ¬ m.grammar.LeftRecursive) (name : String) (c : Nat) :
    m.rule m.depthBound name c =
      m.choose (m.rule m.depthBound) name c (m.grammar.variants name) ⟨[], c, none⟩ := by
  rw [← rule_succ]
  exact (rule_depthBound hl name c (Nat.le_succ _)).2.symm

/-- A sequence that the lexeme cannot begin fails there. -/
theorem stuck_of_not_first (hl : ¬ m.grammar.LeftRecursive)
    (hg : ∀ s ∈ m.grammar.sequences, Solid s) (hi : m.input[c]? = some t) (hs : Solid items)
    (hf : ¬ First m.grammar items t) :
    ∃ us e, (m.sequence (m.rule m.depthBound) items c).outcome = .stuck us e ∧ e.reached = c := by
  have hfinishes : (m.sequence (m.rule m.depthBound) items c).outcome ≠ .unfinished :=
    sequence_finishes (m.sound_rule _) items fun name d _ _ => (rule_depthBound hl name d le_rfl).1
  exact (fruitless_sequence hi (fruitless_rule hg hi m.depthBound) hs hf).resolve_left hfinishes

/-- A repetition whose body matches goes on after it. -/
theorem item_many_onward {body : List Item} (hs : m.Sound call)
    (ha : m.admits (Grammar.first? body) c) (hc : c < m.input.size) (hcd : c < d)
    (hb : (m.sequence call body c).outcome = .matched us d) :
    (m.item call (.many body) c).outcome =
      (m.item call (.many body) d).outcome.map (us ++ ·) := by
  rw [item_many_turn (le_of_sequence hs body)]
  simp [turn, hc, ha, hb, hcd.ne']

section Derived

variable {alphabet : Token → Prop} (hl : ¬ m.grammar.LeftRecursive)
  (hg : ∀ s ∈ m.grammar.sequences, Solid s) (hp : Predictive m.grammar alphabet)
  (hw : ∀ t ∈ m.input.toList, alphabet t)

include hl hg hp hw

/-- The variant that derives what comes is the one that the rule takes. -/
theorem rule_of_variant {v : Variant} (hv : v ∈ m.grammar.variants name)
    (hdv : Derives m.grammar v.items u) (hd : m.input.toList.drop c = u ++ post)
    (hm : (m.sequence (m.rule m.depthBound) v.items c).outcome = .matched us d) :
    c < m.input.size ∧ ∃ n, (m.rule m.depthBound name c).outcome = .matched n d := by
  have hs := solid_of_variant hg hv
  obtain ⟨t, ht, hi, hlt⟩ := exists_head_of_drop hd (ne_nil_of_derives hg hdv hs)
  have hf := first_of_derives hg hdv (solid_of_bodies hg hv) t ht
  obtain ⟨r, hr, _, he⟩ := Grammar.rule_of_mem_variants hv
  refine ⟨hlt, ?_⟩
  rw [rule_fixed hl]
  apply matched_of_first hv hi hs hf hm
  · rw [he]
    exact (hp.variants r hr).imp fun h => h t (hw t (List.mem_of_getElem? (by simpa using hi)))
  · intro w hv' hf'
    obtain ⟨us, e, hu, _⟩ := stuck_of_not_first hl hg hi (solid_of_variant hg hv') hf'
    exact ⟨us, e, hu⟩

/-- A repetition ends where what follows it comes. -/
theorem item_many_closed {body : List Item}
    (hr : Remaining m.grammar name (.many body :: rest)) (hs : Solid body)
    (ha : ∀ t, m.input[c]? = some t → Ahead m.grammar name rest t) :
    (m.item (m.rule m.depthBound) (.many body) c).outcome = .matched [] c := by
  rw [item_many_turn (le_of_sequence (m.sound_rule _) body)]
  apply closed_of_stuck
  intro hc
  have hi := Array.getElem?_eq_getElem hc
  apply stuck_of_not_first hl hg hi hs
  intro hf
  exact hp.repetitions name body rest hr _ (hw _ (by simp)) hf (ha _ hi)

/-- Items match the tokens that they derive, if what comes then can come after them. At the place in
a rule where the items stand, `k` is still to be matched after them. -/
theorem sequence_of_derives (h : Derives m.grammar items u)
    (hb : ∀ s ∈ Grammar.bodies items, Solid s) (hr : Remaining m.grammar name (items ++ k))
    (hd : m.input.toList.drop c = u ++ post)
    (ha : ∀ t ∈ post.head?, Ahead m.grammar name k t) :
    ∃ ns, (m.sequence (m.rule m.depthBound) items c).outcome = .matched ns (c + u.length) := by
  induction h generalizing name k c post with
  | nil => exact ⟨[], by simp⟩
  | @terminal text token rest w ht _ ih =>
    obtain ⟨ns, hns⟩ := ih hb hr.next (drop_of_drop (u := [token]) hd) ha
    refine ⟨leaf c token :: ns, ?_⟩
    rw [List.length_cons, ← Nat.add_assoc, Nat.add_right_comm]
    exact sequence_taken (getElem?_of_drop hd rfl) (decide_eq_true ht) hns
  | @lexical kind token rest w ht _ ih =>
    obtain ⟨ns, hns⟩ := ih hb hr.next (drop_of_drop (u := [token]) hd) ha
    refine ⟨leaf c token :: ns, ?_⟩
    rw [List.length_cons, ← Nat.add_assoc, Nat.add_right_comm]
    exact sequence_taken (getElem?_of_drop hd rfl) ht hns
  | @rule callee v rest u w hv hdv hrest ihv ihr =>
    rw [List.append_assoc] at hd
    have hfollow : ∀ t ∈ (w ++ post).head?, Ahead m.grammar callee [] t := by
      intro t ht
      exact (ahead_of_derives hg hrest hb ha t ht).of_reference hr
    obtain ⟨us, hus⟩ := ihv (solid_of_bodies hg hv) (k := []) (by simpa using Remaining.variant hv)
      hd hfollow
    obtain ⟨hlt, n, hn⟩ := rule_of_variant hl hg hp hw hv hdv hd hus
    obtain ⟨ns, hns⟩ := ihr hb hr.next (drop_of_drop hd) ha
    refine ⟨n :: ns, ?_⟩
    rw [List.length_append, ← Nat.add_assoc]
    exact sequence_matched (by rw [item_rule callee hlt, Step.outcome_map, hn]; rfl) hns
  | @done body rest w hrest ih =>
    have hbr : ∀ s ∈ Grammar.bodies rest, Solid s := by
      intro s hs
      exact hb s (by simp [hs])
    obtain ⟨ns, hns⟩ := ih hbr hr.next hd ha
    have hnext := ahead_of_derives hg hrest hbr ha
    rw [← hd, List.head?_drop, Array.getElem?_toList] at hnext
    exact ⟨ns, sequence_matched (item_many_closed hl hg hp hw hr (hb body (by simp)) hnext) hns⟩
  | @again body rest u w hdb hrest ihb ihr =>
    have hbb : ∀ s ∈ Grammar.bodies body, Solid s := by
      intro s hs
      exact hb s (by simp [hs])
    have hs := hb body (by simp)
    have hu := ne_nil_of_derives hg hdb hs
    rw [List.append_assoc] at hd
    obtain ⟨t, ht, hi, hlt⟩ := exists_head_of_drop hd hu
    obtain ⟨us, hus⟩ := ihb hbb hr.body hd (ahead_of_derives hg hrest hb ha)
    obtain ⟨ns, hns⟩ := ihr hb hr (drop_of_drop hd) ha
    have hm := item_many_onward (m.sound_rule _)
      (admits_of_first hi hs (first_of_derives hg hdb hbb t ht)) hlt
      (Nat.lt_add_of_pos_right (List.length_pos_of_ne_nil hu)) hus
    rw [sequence_cons] at hns
    obtain ⟨xs, d, ys, hx, hy, rfl⟩ := Step.matched_of_andThen hns
    rw [hx, Outcome.map_matched] at hm
    rw [List.length_append, ← Nat.add_assoc]
    exact ⟨_, sequence_matched hm hy⟩

/-- A rule that derives the whole input matches it. -/
theorem rule_of_derives (h : Derives m.grammar [.rule name] m.input.toList) :
    ∃ n, (m.rule m.depthBound name 0).outcome = .matched n m.input.size := by
  generalize hinput : m.input.toList = w at h
  cases h with
  | @rule _ v _ u _ hv hdv hr =>
    cases hr
    have hd : m.input.toList.drop 0 = u ++ [] := hinput
    obtain ⟨us, hus⟩ := sequence_of_derives hl hg hp hw hdv (solid_of_bodies hg hv) (k := [])
      (by simpa using Remaining.variant hv) hd (by simp)
    obtain ⟨_, n, hn⟩ := rule_of_variant hl hg hp hw hv hdv hd hus
    refine ⟨n, hn.trans ?_⟩
    rw [← Array.length_toList, hinput, List.append_nil, Nat.zero_add]

end Derived

end Matcher

variable {g : Grammar} {lexicon : Lexicon} {lexemes : List Lexeme}

/-- A main rule that matches all the lexemes makes the parse a success. -/
theorem isSuccess_of_matched {root : Node}
    (h : ((matcher g lexicon lexemes).rule (matcher g lexicon lexemes).depthBound g.main 0).outcome =
      .matched root lexemes.length) :
    ∃ parsed, parse g lexicon lexemes = some parsed ∧ parsed.tree.isSuccess = true := by
  unfold parse
  dsimp only
  rw [h]
  refine ⟨_, rfl, ?_⟩
  cases (matcher g lexicon lexemes).sound_rule _ _ _ _ _ h with
  | rule hv hd hr =>
    cases hr
    exact Bool.and_eq_true_iff.mpr
      ⟨rfl, Option.isNone_iff_eq_none.mpr (ignoredNode?_consumed.mpr le_rfl)⟩

theorem isSuccess_of_derives (hl : ¬ g.LeftRecursive) (hg : ∀ s ∈ g.sequences, Solid s)
    {alphabet : Token → Prop} (hp : Predictive g alphabet)
    (hw : ∀ x ∈ lexemes, alphabet (Token.ofLexeme lexicon x))
    (h : Derives g [.rule g.main] (lexemes.map (Token.ofLexeme lexicon))) :
    ∃ parsed, parse g lexicon lexemes = some parsed ∧ parsed.tree.isSuccess = true := by
  obtain ⟨root, hroot⟩ := (matcher g lexicon lexemes).rule_of_derives hl hg hp
    (by simpa using hw) (by simpa using h)
  rw [size_matcher_input] at hroot
  exact isSuccess_of_matched hroot

/-- On a predictive grammar a parse succeeds if and only if the main rule derives the lexemes. With
all tokens for the alphabet it is so for every list of lexemes. -/
theorem parse_complete {seed : Lexicon} {text : GrammarText} {g : Grammar}
    (hc : Grammar.compile seed text = .ok g) (hl : ¬ g.LeftRecursive) (hm : g.NoLeadingMany)
    {alphabet : Token → Prop} (hp : Predictive g alphabet) (lexicon : Lexicon)
    (lexemes : List Lexeme) (hw : ∀ x ∈ lexemes, alphabet (Token.ofLexeme lexicon x)) :
    ∃ parsed, parse g lexicon lexemes = some parsed ∧
      (parsed.tree.isSuccess = true ↔
        Derives g [.rule g.main] (lexemes.map (Token.ofLexeme lexicon))) := by
  have hg : ∀ s ∈ g.sequences, Solid s := fun s hs => ⟨Grammar.ne_nil_of_compile hc hs, hm s hs⟩
  cases hparse : parse g lexicon lexemes with
  | none => exact ((Matcher.rule_depthBound hl g.main 0 le_rfl).1 (parse_eq_none_iff.mp hparse)).elim
  | some parsed =>
    refine ⟨parsed, rfl, derives_of_isSuccess hparse, fun hd => ?_⟩
    obtain ⟨parsed', hp', hs⟩ := isSuccess_of_derives hl hg hp hw hd
    obtain rfl := Option.some.inj (hparse.symm.trans hp')
    exact hs

/-- No identifier is spelled like a parenthesis. -/
def Unmixed (t : Token) : Prop :=
  t.category = .identifier → t.spelling ≠ some "(" ∧ t.spelling ≠ some ")"

theorem remaining_lists {name : String} {items : List Item} (h : Remaining lists name items) :
    items ∈ [[.terminal "(", .many [.rule "List"], .terminal ")"], [.lexical .identifier],
      [.many [.rule "List"], .terminal ")"], [.terminal ")"], [],
      [.rule "List", .many [.rule "List"], .terminal ")"]] := by
  induction h with
  | variant hv => rcases items_of_mem_lists hv with hi | hi <;> simp [hi]
  | next _ ih =>
    simp only [List.mem_cons, List.cons.injEq, List.not_mem_nil, reduceCtorEq, or_false,
      false_or] at ih
    rcases ih with ⟨_, rfl⟩ | ⟨_, rfl⟩ | ⟨_, rfl⟩ | ⟨_, rfl⟩ | ⟨_, rfl⟩ <;> simp
  | body _ ih =>
    simp only [List.mem_cons, List.cons.injEq, Item.many.injEq, List.not_mem_nil, reduceCtorEq,
      false_and, or_self, or_false, false_or] at ih
    obtain ⟨rfl, rfl⟩ := ih
    simp

theorem predictive_lists : Predictive lists Unmixed where
  variants := by
    intro r hr
    obtain rfl := List.mem_singleton.mp hr
    simp only [List.pairwise_pair, first_terminal, first_lexical, Grammar.LexicalClass.admits,
      decide_eq_true_eq]
    intro t ht hs hc
    exact (ht hc).1 hs
  repetitions := by
    intro name body rest hr t ht hf ha
    have hi := remaining_lists hr
    simp only [List.mem_cons, List.cons.injEq, Item.many.injEq, List.not_mem_nil, reduceCtorEq,
      false_and, or_self, or_false, false_or] at hi
    obtain ⟨rfl, rfl⟩ := hi
    have hs : t.spelling = some ")" := by simpa [Ahead, OnlyMany] using ha
    obtain ⟨v, hv, hf⟩ := first_rule.mp hf
    rcases items_of_mem_lists hv with hi | hi
    · simp [hi, hs] at hf
    · rw [hi, first_lexical] at hf
      exact (ht (of_decide_eq_true hf)).2 hs

theorem parse_complete_lists :
    Grammar.compile (.seeded [] ["(", ")"])
      ⟨"List", [⟨"List", "( [ \x7bList\x7d ] ) | \x7bIdentifier\x7d"⟩]⟩ = .ok lists ∧
    Derives lists [.rule "List"] (nestedList.map (Token.ofLexeme listsLexicon)) ∧
    ¬ Derives lists [.rule "List"] (nestedList.dropLast.map (Token.ofLexeme listsLexicon)) := by
  have hc : Grammar.compile (.seeded [] ["(", ")"])
      ⟨"List", [⟨"List", "( [ \x7bList\x7d ] ) | \x7bIdentifier\x7d"⟩]⟩ = .ok lists := by cbv
  have hw : ∀ x ∈ nestedList, Unmixed (Token.ofLexeme listsLexicon x) := by
    unfold Unmixed
    decide
  have hcomplete := parse_complete hc not_leftRecursive_lists noLeadingMany_lists predictive_lists
    listsLexicon
  refine ⟨hc, ?_, ?_⟩
  · obtain ⟨parsed, hp, hiff⟩ := hcomplete nestedList hw
    have hs : (parse lists listsLexicon nestedList).map (·.tree.isSuccess) = some true := rfl
    rw [hp] at hs
    exact hiff.mp (Option.some.inj hs)
  · obtain ⟨parsed, hp, hiff⟩ := hcomplete nestedList.dropLast
      fun x hx => hw x (List.mem_of_mem_dropLast hx)
    have hs : (parse lists listsLexicon nestedList.dropLast).map (·.tree.isSuccess) = some false :=
      rfl
    rw [hp] at hs
    intro hd
    exact Bool.noConfusion ((hiff.mpr hd).symm.trans (Option.some.inj hs))

end Descent.Parse
