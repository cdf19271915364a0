import Descent.Proofs.Grammar.Sequences
import Descent.Proofs.Parse.Termination

/-!
Looking at the first item before a sequence is entered is only a saving, as long as no sequence
begins with a repetition: what is passed over would have failed at its first lexeme, which changes
neither what matches nor how far a failure reached.
-/
namespace Descent.Parse

open Grammar (Item Variant)

namespace Outcome

/-- Two matches that end in the same way at the same lexeme, their results related. -/
inductive Agree {α : Type} (ok bad : α → α → Prop) : Outcome α → Outcome α → Prop
  | matched {a a' d} (h : ok a a') : Agree ok bad (.matched a d) (.matched a' d)
  | stuck {a a' e e'} (h : bad a a') (he : e.reached = e'.reached) :
      Agree ok bad (.stuck a e) (.stuck a' e')
  | unfinished : Agree ok bad .unfinished .unfinished

variable {α β : Type} {ok bad : α → α → Prop} {ok' bad' : β → β → Prop} {o o' : Outcome α}
  {f f' : α → β}

theorem Agree.map (h : Agree ok bad o o') (hok : ∀ a a', ok a a' → ok' (f a) (f' a'))
    (hbad : ∀ a a', bad a a' → bad' (f a) (f' a')) : Agree ok' bad' (o.map f) (o'.map f') := by
  cases h with
  | matched h => exact .matched (hok _ _ h)
  | stuck h he => exact .stuck (hbad _ _ h) he
  | unfinished => exact .unfinished

end Outcome

/-- The nodes of a failed rule that say the same but for the attempts and the message. -/
def SameExtent (n n' : Node) : Prop := n.verdict = n'.verdict ∧ n.span = n'.span

/-- The same nodes if a sequence matches, any if it fails. -/
abbrev AgreeOnMatch : Outcome (List Node) → Outcome (List Node) → Prop :=
  Outcome.Agree Eq fun _ _ => True

theorem agree_andThen {s s' : Step (List Node)} {k k' : Nat → Step (List Node)}
    (hs : AgreeOnMatch s.outcome s'.outcome)
    (hk : ∀ c, AgreeOnMatch (k c).outcome (k' c).outcome) :
    AgreeOnMatch (s.andThen k).outcome (s'.andThen k').outcome := by
  generalize ho : s.outcome = o at hs
  generalize ho' : s'.outcome = o' at hs
  cases hs with
  | @matched us us' c h =>
    subst h
    rw [Step.andThen_matched ho, Step.andThen_matched ho']
    exact (hk c).map (fun _ _ h => by rw [h]) (fun _ _ _ => trivial)
  | stuck _ he =>
    rw [Step.andThen_stuck ho, Step.andThen_stuck ho', ho, ho']
    exact .stuck trivial he
  | unfinished =>
    rw [Step.andThen_unfinished ho, Step.andThen_unfinished ho', ho, ho']
    exact .unfinished

namespace Matcher

/-- The matcher that enters every sequence. -/
def unpruned (m : Matcher) : Matcher := { m with prune := false }

variable {m : Matcher} {call call' : String → Nat → Step Node} {items : List Item}
  {body body' : Nat → Step (List Node)} {first : Option Item} {c limit : Nat}

/-- A sequence that is passed over begins with an item that does not take the lexeme there is. -/
theorem refused_of_not_admits (h : ¬ m.admits (Grammar.first? items) c)
    (hm : Grammar.beginsWithMany items = false) :
    ∃ i rest, items = i :: rest ∧ i.isSingle ∧
      ∀ token, m.input[c]? = some token → ¬ takes i token := by
  cases items with
  | nil => simp [admits, Grammar.first?] at h
  | cons i rest =>
    refine ⟨i, rest, rfl, ?_⟩
    cases i with
    | terminal | lexical =>
      refine ⟨rfl, fun token ht htakes => h ?_⟩
      simp [admits, Grammar.first?, Item.first?, ht, htakes]
    | rule name => simp [admits, Grammar.first?, Item.first?] at h
    | many => cases hm

/-- Entered all the same, it fails at its first lexeme. -/
theorem stuck_of_not_admits (call : String → Nat → Step Node)
    (h : ¬ m.admits (Grammar.first? items) c)
    (hm : Grammar.beginsWithMany items = false) :
    ∃ us e, (m.unpruned.sequence call items c).outcome = .stuck us e ∧ e.reached = c := by
  obtain ⟨i, rest, rfl, hi, ht⟩ := refused_of_not_admits h hm
  have hr : m.unpruned.item call i c = ⟨.stuck [] (m.unpruned.mismatch (expected i) c), []⟩ :=
    item_refused hi ht
  rw [sequence_cons, Step.andThen_stuck (by rw [hr]), hr]
  exact ⟨_, _, rfl, rfl⟩

theorem agree_iterate (hb : ∀ c, AgreeOnMatch (body c).outcome (body' c).outcome)
    (hf : ∀ c, ¬ m.admits first c → ∃ us e, (body' c).outcome = .stuck us e ∧ e.reached = c) :
    AgreeOnMatch (m.iterate first body limit c).outcome
      (m.unpruned.iterate first body' limit c).outcome := by
  induction limit generalizing c with
  | zero =>
    rw [iterate_zero, iterate_zero]
    exact .matched rfl
  | succ limit ih =>
    by_cases hc : c < m.input.size
    · have hc' : c < m.unpruned.input.size ∧ m.unpruned.admits first c := ⟨hc, rfl⟩
      rw [iterate_succ, iterate_succ, turn, turn, if_pos hc']
      by_cases ha : m.admits first c
      · rw [if_pos ⟨hc, ha⟩]
        have hbc := hb c
        generalize ho : (body c).outcome = o at hbc
        generalize ho' : (body' c).outcome = o' at hbc
        cases hbc with
        | @matched us us' d h =>
          subst h
          by_cases hd : d = c
          · simpa [hd] using Outcome.Agree.matched rfl
          · simpa [hd] using (ih (c := d)).map (fun _ _ h => by rw [h]) (fun _ _ _ => trivial)
        | @stuck us us' e e' _ he =>
          by_cases hr : e.reached = c
          · simpa [hr, ← he] using Outcome.Agree.matched rfl
          · simpa [hr, ← he, ho, ho'] using Outcome.Agree.stuck trivial he
        | unfinished => simpa [ho, ho'] using Outcome.Agree.unfinished
      · obtain ⟨us, e, ho', he⟩ := hf c ha
        rw [if_neg (fun h => ha h.2), ho']
        simpa [he] using Outcome.Agree.matched rfl
    · rw [iterate_end hc, iterate_end (m := m.unpruned) hc]
      exact .matched rfl

theorem agree_sequence
    (hc : ∀ name c, Outcome.Agree Eq SameExtent (call name c).outcome (call' name c).outcome)
    (items : List Item) (hm : ∀ s ∈ Grammar.bodies items, Grammar.beginsWithMany s = false)
    (c : Nat) : AgreeOnMatch (m.sequence call items c).outcome
      (m.unpruned.sequence call' items c).outcome := by
  induction items using Grammar.items_induction generalizing c with
  | nil =>
    rw [sequence_nil, sequence_nil]
    exact .matched rfl
  | single i rest hi ih =>
    rw [sequence_cons, sequence_cons]
    refine agree_andThen ?_ (ih (fun s hs => hm s (by cases i <;> simp_all [Item.isSingle])))
    rcases item_single m call c hi with ⟨token, hin, ht, he⟩ | ⟨ht, he⟩
    · rw [he, item_taken (m := m.unpruned) hin ht]
      exact .matched rfl
    · rw [he, item_refused (m := m.unpruned) hi ht]
      exact .stuck trivial rfl
  | rule name rest ih =>
    rw [sequence_cons, sequence_cons]
    refine agree_andThen ?_ (ih hm)
    by_cases hlt : c < m.input.size
    · rw [item_rule name hlt, item_rule (m := m.unpruned) name hlt]
      exact (hc name c).map (fun _ _ h => by rw [h]) (fun _ _ _ => trivial)
    · rw [item_rule_end name hlt, item_rule_end (m := m.unpruned) name hlt]
      exact .stuck trivial rfl
  | many body rest ihb ihr =>
    simp only [Grammar.bodies_many, List.cons_append, List.mem_cons, List.mem_append] at hm
    rw [sequence_cons, sequence_cons]
    refine agree_andThen ?_ (ihr (fun s hs => hm s (Or.inr (Or.inr hs))))
    rw [item_many, item_many]
    apply agree_iterate (ihb (fun s hs => hm s (Or.inr (Or.inl hs))))
    intro c ha
    exact stuck_of_not_admits call' ha (hm body (Or.inl rfl))

theorem agree_choose
    (hc : ∀ name c, Outcome.Agree Eq SameExtent (call name c).outcome (call' name c).outcome)
    {name : String} {vs : List Variant} {f f' : Failures}
    (hm : ∀ v ∈ vs, ∀ s ∈ v.items :: Grammar.bodies v.items, Grammar.beginsWithMany s = false)
    (hf : f.reached = f'.reached) (hle : c ≤ f.reached) :
    Outcome.Agree Eq SameExtent (m.choose call name c vs f).outcome
      (m.unpruned.choose call' name c vs f').outcome := by
  induction vs generalizing f f' with
  | nil =>
    rw [choose_nil, choose_nil]
    exact .stuck ⟨rfl, by simp only [hf]; rfl⟩ hf
  | cons v rest ih =>
    have hv := hm v List.mem_cons_self
    have hr : ∀ w ∈ rest, ∀ s ∈ w.items :: Grammar.bodies w.items,
        Grammar.beginsWithMany s = false := by
      intro w hw
      exact hm w (List.mem_cons_of_mem v hw)
    have ha : AgreeOnMatch (m.sequence call v.items c).outcome
        (m.unpruned.sequence call' v.items c).outcome := by
      apply agree_sequence hc
      intro s hs
      exact hv s (List.mem_cons_of_mem _ hs)
    by_cases had : m.admits (Grammar.first? v.items) c
    · generalize ho : (m.sequence call v.items c).outcome = o at ha
      generalize ho' : (m.unpruned.sequence call' v.items c).outcome = o' at ha
      cases ha with
      | @matched us us' d h =>
        subst h
        rw [choose_matched had ho, choose_matched (m := m.unpruned) rfl ho']
        exact .matched rfl
      | @stuck us us' e e' _ he =>
        rw [choose_failed had ho, choose_failed (m := m.unpruned) rfl ho']
        refine ih hr ?_ (le_max_of_le_left hle)
        change max f.reached e.reached = max f'.reached e'.reached
        rw [hf, he]
      | unfinished =>
        rw [choose_unfinished had ho, choose_unfinished (m := m.unpruned) rfl ho']
        exact .unfinished
    · obtain ⟨us, e, ho', he⟩ := stuck_of_not_admits call' had (hv _ List.mem_cons_self)
      rw [choose_pruned had, choose_failed (m := m.unpruned) rfl ho']
      refine ih hr ?_ hle
      change f.reached = max f'.reached e.reached
      omega

theorem agree_rule (hm : m.grammar.NoLeadingMany) (depth : Nat) (name : String) (c : Nat) :
    Outcome.Agree Eq SameExtent (m.rule depth name c).outcome
      (m.unpruned.rule depth name c).outcome := by
  induction depth generalizing name c with
  | zero =>
    rw [rule_zero, rule_zero]
    exact .unfinished
  | succ depth ih =>
    rw [rule_succ, rule_succ]
    exact agree_choose ih (fun v hv s hs => hm s (Grammar.mem_sequences hv hs)) rfl le_rfl

end Matcher

/-- On a grammar without left recursion, none of whose sequences begins with a repetition, entering
every sequence comes to the same: the same match with the same tree up to the same lexeme, or a
failure that reached the same lexeme and whose node has the same verdict and span. -/
theorem pruning_exact {g : Grammar} (h : ¬ g.LeftRecursive) (hm : g.NoLeadingMany)
    (lexicon : Lexicon) (lexemes : List Lexeme) (name : String) (start depth : Nat)
    (hd : (matcher g lexicon lexemes).depthBound ≤ depth) :
    ((matcher g lexicon lexemes).rule depth name start).outcome ≠ .unfinished ∧
      Outcome.Agree Eq SameExtent ((matcher g lexicon lexemes).rule depth name start).outcome
        ((matcher g lexicon lexemes).unpruned.rule depth name start).outcome := by
  have hb := @Matcher.rule_depthBound (matcher g lexicon lexemes) h name start depth hd
  exact ⟨hb.2 ▸ hb.1, Matcher.agree_rule hm depth name start⟩

/-- At the parenthesis that no list begins with, both variants are passed over. -/
theorem pruning_exact_lists : ¬ lists.LeftRecursive ∧ lists.NoLeadingMany ∧
    ((matcher lists listsLexicon nestedList).rule 7 "List" 3).outcome ≠ .unfinished ∧
      Outcome.Agree Eq SameExtent ((matcher lists listsLexicon nestedList).rule 7 "List" 3).outcome
        ((matcher lists listsLexicon nestedList).unpruned.rule 7 "List" 3).outcome :=
  ⟨not_leftRecursive_lists, noLeadingMany_lists,
    pruning_exact not_leftRecursive_lists noLeadingMany_lists listsLexicon nestedList "List" 3 7
      (by decide)⟩

end Descent.Parse
