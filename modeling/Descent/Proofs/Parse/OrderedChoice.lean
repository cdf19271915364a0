import Descent.Proofs.Grammar.Compiled
import Descent.Proofs.Parse.Pruning
import Mathlib

/-!
Without repetitions the matcher is the textbook's ordered choice. A rule takes its first variant
that matches and no other one after it; where the matcher passes over a variant or does not enter a
rule at the end of the input, ordered choice would have failed there.
-/
namespace Descent

/-- No variant has a repetition. -/
def Grammar.NoMany (g : Grammar) : Prop := ∀ s ∈ g.sequences, Grammar.bodies s = []

/-- A sequence of literal tokens. -/
def Grammar.literals (texts : List String) : List Grammar.Item := texts.map .terminal

namespace Parse

open Grammar (Item Variant)

/-- Ordered choice for sequences without repetitions: at a lexeme a sequence matches up to another
one or fails. A rule takes the result of the first variant that matches, for good. -/
inductive Peg (g : Grammar) (input : Array Token) : List Item → Nat → Option Nat → Prop
  | nil {b} : Peg g input [] b (some b)
  | taken {i rest b token r} (hi : input[b]? = some token) (ht : Matcher.takes i token)
      (hr : Peg g input rest (b + 1) r) : Peg g input (i :: rest) b r
  | refused {i rest b} (hs : i.isSingle)
      (ht : ∀ token, input[b]? = some token → ¬ Matcher.takes i token) :
      Peg g input (i :: rest) b none
  | chosen {name rest b d r} {i : Nat} {v : Variant} (hv : (g.variants name)[i]? = some v)
      (hb : ∀ j < i, ∀ w : Variant, (g.variants name)[j]? = some w → Peg g input w.items b none)
      (hm : Peg g input v.items b (some d)) (hr : Peg g input rest d r) :
      Peg g input (.rule name :: rest) b r
  | exhausted {name rest b} (hb : ∀ w ∈ g.variants name, Peg g input w.items b none) :
      Peg g input (.rule name :: rest) b none

/-- Variant `i` of a rule is the first one that matches at lexeme `b`, and matches up to `e`. -/
structure Wins (g : Grammar) (input : Array Token) (name : String) (b i e : Nat) : Prop where
  matching : ∃ v, (g.variants name)[i]? = some v ∧ Peg g input v.items b (some e)
  first : ∀ j < i, ∀ w, (g.variants name)[j]? = some w → ¬ ∃ d, Peg g input w.items b (some d)

/-- The lexeme where a match ends. -/
def Outcome.next? {α : Type} : Outcome α → Option Nat
  | .matched _ d => some d
  | .stuck .. | .unfinished => none

/-- The index of the variant that a rule matches by: the first one that is entered and matches. -/
def Matcher.winner? (m : Matcher) (call : String → Nat → Step Node) (c : Nat)
    (vs : List Variant) : Option Nat :=
  vs.findIdx? fun v =>
    m.admits (Grammar.first? v.items) c && (m.sequence call v.items c).outcome.next?.isSome

variable {g : Grammar} {input : Array Token} {items xs ys : List Item} {name : String}
  {b d e i : Nat} {r r' : Option Nat}

namespace Peg

theorem append (hx : Peg g input xs b (some d)) (hy : Peg g input ys d r) :
    Peg g input (xs ++ ys) b r := by
  generalize hd : some d = q at hx
  induction hx with
  | nil =>
    cases hd
    exact hy
  | taken hi ht _ ih => exact .taken hi ht (ih hd)
  | refused | exhausted => cases hd
  | chosen hv hb hm _ _ _ ih => exact .chosen hv hb hm (ih hd)

theorem append_none (hx : Peg g input xs b none) : Peg g input (xs ++ ys) b none := by
  generalize hd : none = q at hx
  induction hx with
  | nil => cases hd
  | taken hi ht _ ih => exact .taken hi ht (ih hd)
  | refused hs ht => exact .refused hs ht
  | chosen hv hb hm _ _ _ ih => exact .chosen hv hb hm (ih hd)
  | exhausted hb => exact .exhausted hb

/-- A sequence comes out in one way only. -/
theorem unique (h : Peg g input items b r) (h' : Peg g input items b r') : r = r' := by
  induction h generalizing r' with
  | nil =>
    cases h'
    rfl
  | @taken i _ _ token _ hi ht _ ih =>
    cases h' with
    | taken _ _ hr => exact ih hr
    | refused _ ht' => exact (ht' token hi ht).elim
    | chosen | exhausted => cases ht
  | refused hs ht =>
    cases h' with
    | taken hi ht' _ => exact (ht _ hi ht').elim
    | refused => rfl
    | chosen | exhausted => cases hs
  | @chosen _ _ _ _ _ i v hv _ _ _ ihb ihm ihr =>
    cases h' with
    | taken _ ht _ => cases ht
    | refused hs _ => cases hs
    | @chosen _ _ _ _ _ i' v' hv' hb' hm' hr' =>
      rcases Nat.lt_trichotomy i i' with hlt | rfl | hlt
      · cases ihm (hb' i hlt v hv)
      · obtain rfl := Option.some.inj (hv.symm.trans hv')
        cases ihm hm'
        exact ihr hr'
      · cases ihb i' hlt v' hv' hm'
    | exhausted hb' => cases ihm (hb' v (List.mem_of_getElem? hv))
  | exhausted _ ihb =>
    cases h' with
    | taken _ ht _ => cases ht
    | refused hs _ => cases hs
    | chosen hv' _ hm' _ => cases ihb _ (List.mem_of_getElem? hv') hm'
    | exhausted => rfl

theorem drop_of_getElem? {token : Token} (hi : input[b]? = some token) :
    input.toList.drop b = token :: input.toList.drop (b + 1) := by
  obtain ⟨hb, rfl⟩ := Array.getElem?_eq_some_iff.mp hi
  rw [List.drop_eq_getElem_cons (by simpa using hb), Array.getElem_toList]

/-- Literal tokens match when the lexemes go on with them. -/
theorem literals_iff {texts : List String} : Peg g input (Grammar.literals texts) b (some e) ↔
    e = b + texts.length ∧ texts.map some <+: (input.toList.drop b).map Token.spelling := by
  induction texts generalizing b with
  | nil =>
    constructor
    · intro h
      cases h
      simp
    · rintro ⟨rfl, -⟩
      exact .nil
  | cons text texts ih =>
    have hlen : b + (text :: texts).length = b + 1 + texts.length := by
      rw [List.length_cons]
      omega
    rw [hlen]
    constructor
    · intro h
      cases h with
      | taken hi ht hr =>
        obtain ⟨he, hp⟩ := ih.mp hr
        rw [drop_of_getElem? hi, List.map_cons, List.map_cons, List.cons_prefix_cons]
        exact ⟨he, (of_decide_eq_true ht).symm, hp⟩
    · rintro ⟨he, hp⟩
      cases hi : input[b]? with
      | none =>
        have hb : input.toList.drop b = [] := by
          rw [List.drop_eq_nil_iff, Array.length_toList]
          exact Array.getElem?_eq_none_iff.mp hi
        rw [hb] at hp
        cases List.prefix_nil.mp hp
      | some token =>
        rw [drop_of_getElem? hi, List.map_cons, List.map_cons, List.cons_prefix_cons] at hp
        exact .taken hi (decide_eq_true hp.1.symm) (ih.mpr ⟨he, hp.2⟩)

end Peg

/-- Only one variant is the first that matches, and it matches in one way. -/
theorem Wins.unique {i' e' : Nat} (h : Wins g input name b i e) (h' : Wins g input name b i' e') :
    i = i' ∧ e = e' := by
  obtain ⟨v, hv, hm⟩ := h.matching
  obtain ⟨v', hv', hm'⟩ := h'.matching
  rcases Nat.lt_trichotomy i i' with hlt | rfl | hlt
  · exact (h'.first i hlt v hv ⟨e, hm⟩).elim
  · obtain rfl := Option.some.inj (hv.symm.trans hv')
    exact ⟨rfl, Option.some.inj (hm.unique hm')⟩
  · exact (h.first i' hlt v' hv' ⟨e', hm'⟩).elim

/-- At the end of the input nothing matches that takes a lexeme first. A rule comes there only to
rules that it can call in place, which become fewer. -/
theorem peg_none_of_end (hl : ¬ g.LeftRecursive) (hne : ∀ s ∈ g.sequences, s ≠ [])
    (hm : g.NoMany) (hb : ¬ b < input.size) (name : String) :
    Peg g input [.rule name] b none := by
  induction hn : (g.reach name).card using Nat.strong_induction_on generalizing name with
  | _ n ih =>
    refine .exhausted fun v hv => ?_
    have hs := Grammar.mem_sequences hv List.mem_cons_self
    generalize hi : v.items = items at hs
    cases items with
    | nil => exact (hne [] hs rfl).elim
    | cons i rest =>
      cases i with
      | terminal | lexical =>
        refine .refused rfl fun token ht => ?_
        rw [Array.getElem?_eq_none (by omega)] at ht
        cases ht
      | rule callee =>
        have hlt := Grammar.card_reach_lt hl ⟨v, hv, hi ▸ Grammar.Leads.call⟩
        exact Peg.append_none (ih _ (hn ▸ hlt) callee rfl)
      | many body => cases hm _ hs

namespace Outcome

variable {α β : Type}

@[simp] theorem next?_map (f : α → β) (o : Outcome α) : (o.map f).next? = o.next? := by
  cases o <;> rfl

end Outcome

namespace Matcher

variable {m : Matcher} {call : String → Nat → Step Node} {c : Nat} {v : Variant}
  {vs : List Variant} {f : Failures} {o : Outcome Node}

/-- A variant that is passed over or fails. -/
def Misses (m : Matcher) (call : String → Nat → Step Node) (c : Nat) (v : Variant) : Prop :=
  m.admits (Grammar.first? v.items) c → ∃ us e, (m.sequence call v.items c).outcome = .stuck us e

/-- What a rule comes to, and by which variant. -/
inductive Choice (m : Matcher) (call : String → Nat → Step Node) (name : String) (c : Nat)
    (vs : List Variant) : Outcome Node → Prop
  | won {i v us d} (hw : m.winner? call c vs = some i) (hv : vs[i]? = some v)
      (hs : (m.sequence call v.items c).outcome = .matched us d)
      (hb : ∀ j < i, ∀ w, vs[j]? = some w → m.Misses call c w) :
      Choice m call name c vs (.matched (accepted name c v us d) d)
  | lost {n e} (hw : m.winner? call c vs = none) (hb : ∀ w ∈ vs, m.Misses call c w) :
      Choice m call name c vs (.stuck n e)

theorem Choice.cons (hv : m.Misses call c v) (h : Choice m call name c vs o) :
    Choice m call name c (v :: vs) o := by
  have hw : m.winner? call c (v :: vs) = (m.winner? call c vs).map (· + 1) := by
    rw [winner?, List.findIdx?_cons, if_neg]
    · rfl
    · intro ha
      rw [Bool.and_eq_true] at ha
      obtain ⟨us, e, hs⟩ := hv ha.1
      simp [hs, Outcome.next?] at ha
  cases h with
  | won hi hx hs hb =>
    refine .won (i := _ + 1) (by rw [hw, hi]; rfl) hx hs fun j hj w hjw => ?_
    cases j with
    | zero =>
      cases hjw
      exact hv
    | succ j => exact hb j (by omega) w hjw
  | lost hn hb => exact .lost (by rw [hw, hn]; rfl) (List.forall_mem_cons.mpr ⟨hv, hb⟩)

theorem choose_cases (h : (m.choose call name c vs f).outcome ≠ .unfinished) :
    Choice m call name c vs (m.choose call name c vs f).outcome := by
  induction vs generalizing f with
  | nil =>
    rw [choose_nil]
    exact .lost rfl nofun
  | cons v rest ih =>
    generalize ho : (m.choose call name c (v :: rest) f).outcome = o at h
    cases choose_attempt ho with
    | pruned ha ho => exact ho ▸ (ih (ho ▸ h)).cons fun ha' => (ha ha').elim
    | matched ha hs =>
      refine .won (i := 0) ?_ rfl hs nofun
      rw [winner?, List.findIdx?_cons, if_pos (by simp [ha, hs, Outcome.next?])]
    | failed ha hs ho => exact ho ▸ (ih (ho ▸ h)).cons fun _ => ⟨_, _, hs⟩
    | unfinished => exact (h rfl).elim

/-- Every rule fails at the end of the input. -/
def FailsAtEnd (m : Matcher) : Prop :=
  ∀ name d, ¬ d < m.input.size → Peg m.grammar m.input [.rule name] d none

/-- What `call` comes to is what ordered choice does. -/
def Ordered (m : Matcher) (call : String → Nat → Step Node) : Prop :=
  ∀ name d, (call name d).outcome ≠ .unfinished →
    Peg m.grammar m.input [.rule name] d (call name d).outcome.next?

theorem andThen_ne_unfinished {s : Step (List Node)} {k : Nat → Step (List Node)}
    (h : (s.andThen k).outcome ≠ .unfinished) : s.outcome ≠ .unfinished := by
  intro hs
  rw [Step.andThen_unfinished hs] at h
  exact h hs

theorem peg_andThen {i : Item} {rest : List Item} {s : Step (List Node)}
    {k : Nat → Step (List Node)} (hs : Peg g input [i] c s.outcome.next?)
    (hk : ∀ d, (k d).outcome ≠ .unfinished → Peg g input rest d (k d).outcome.next?)
    (h : (s.andThen k).outcome ≠ .unfinished) :
    Peg g input (i :: rest) c (s.andThen k).outcome.next? := by
  cases ho : s.outcome with
  | matched us d =>
    rw [Step.andThen_matched ho] at h ⊢
    rw [Outcome.next?_map]
    exact (ho ▸ hs).append (hk d (by simpa using h))
  | stuck us e =>
    rw [Step.andThen_stuck ho, ho]
    exact (ho ▸ hs).append_none
  | unfinished => exact (andThen_ne_unfinished h ho).elim

/-- What holds of the rules that are called holds of every sequence. -/
theorem peg_sequence (hend : m.FailsAtEnd) (hcall : m.Ordered call)
    (hi : Grammar.bodies items = []) (h : (m.sequence call items c).outcome ≠ .unfinished) :
    Peg m.grammar m.input items c (m.sequence call items c).outcome.next? := by
  induction items using Grammar.items_induction generalizing c with
  | nil =>
    rw [sequence_nil]
    exact .nil
  | single i rest hs ih =>
    have hrest : Grammar.bodies rest = [] := (List.append_eq_nil_iff.mp hi).2
    rw [sequence_cons] at h ⊢
    refine peg_andThen ?_ (fun d => ih hrest) h
    rcases item_single m call c hs with ⟨token, hin, ht, he⟩ | ⟨ht, he⟩
    · rw [he]
      exact .taken hin ht .nil
    · rw [he]
      exact .refused hs ht
  | rule name rest ih =>
    rw [sequence_cons] at h ⊢
    refine peg_andThen ?_ (fun d => ih hi) h
    by_cases hlt : c < m.input.size
    · have hne := andThen_ne_unfinished h
      rw [item_rule name hlt, Step.outcome_map] at hne ⊢
      rw [Outcome.next?_map]
      exact hcall name c (by simpa using hne)
    · rw [item_rule_end name hlt]
      exact hend name c hlt
  | many => cases hi

theorem peg_of_matched {us : List Node} (hm : m.grammar.NoMany) (hend : m.FailsAtEnd)
    (hcall : m.Ordered call) (hv : v ∈ m.grammar.variants name)
    (hs : (m.sequence call v.items c).outcome = .matched us d) :
    Peg m.grammar m.input v.items c (some d) := by
  have hi := hm v.items (Grammar.mem_sequences hv List.mem_cons_self)
  have hp := peg_sequence (c := c) hend hcall hi (by simp [hs])
  rwa [hs] at hp

/-- A variant that is passed over would have failed. -/
theorem peg_of_misses (hm : m.grammar.NoMany) (hend : m.FailsAtEnd) (hcall : m.Ordered call)
    (hv : v ∈ m.grammar.variants name) (h : m.Misses call c v) :
    Peg m.grammar m.input v.items c none := by
  have hi := hm v.items (Grammar.mem_sequences hv List.mem_cons_self)
  by_cases ha : m.admits (Grammar.first? v.items) c
  · obtain ⟨us, e, hs⟩ := h ha
    have hp := peg_sequence (c := c) hend hcall hi (by simp [hs])
    rwa [hs] at hp
  · have hb : Grammar.beginsWithMany v.items = false := by
      cases hv : v.items with
      | nil => rfl
      | cons i rest =>
        rw [hv] at hi
        cases i with
        | terminal | lexical | rule => rfl
        | many => cases hi
    obtain ⟨i, rest, hv, hs, ht⟩ := refused_of_not_admits ha hb
    rw [hv]
    exact .refused hs ht

theorem ordered_rule (hm : m.grammar.NoMany) (hend : m.FailsAtEnd) (depth : Nat) :
    m.Ordered (m.rule depth) := by
  induction depth with
  | zero =>
    intro name c h
    rw [rule_zero] at h
    exact (h rfl).elim
  | succ depth ih =>
    intro name c h
    rw [rule_succ] at h ⊢
    have hc := choose_cases h
    generalize (m.choose (m.rule depth) name c (m.grammar.variants name) ⟨[], c, none⟩).outcome = o
      at hc
    cases hc with
    | won hw hv hs hb =>
      have hp := peg_of_matched hm hend ih (List.mem_of_getElem? hv) hs
      exact .chosen hv (fun j hj w hw =>
        peg_of_misses hm hend ih (List.mem_of_getElem? hw) (hb j hj w hw)) hp .nil
    | lost _ hb => exact .exhausted fun w hw => peg_of_misses hm hend ih hw (hb w hw)

/-- At a depth that is enough a rule matches by the variant that wins, or else none does. -/
theorem rule_wins (hl : ¬ m.grammar.LeftRecursive) (hm : m.grammar.NoMany) (hend : m.FailsAtEnd)
    {depth : Nat} (hd : m.depthBound ≤ depth) (name : String) (c : Nat) :
    (∃ i v us e, (m.rule depth name c).outcome = .matched (accepted name c v us e) e ∧
      m.winner? (m.rule depth) c (m.grammar.variants name) = some i ∧
      (m.grammar.variants name)[i]? = some v ∧ Wins m.grammar m.input name c i e) ∨
    (∃ n e, (m.rule depth name c).outcome = .stuck n e) ∧
      m.winner? (m.rule depth) c (m.grammar.variants name) = none ∧
      ∀ i e, ¬ Wins m.grammar m.input name c i e := by
  have hb := m.rule_depthBound hl name c hd
  have hf : m.rule (depth + 1) name c = m.rule depth name c := by
    rw [hb.2, (m.rule_depthBound hl name c (Nat.le_succ_of_le hd)).2]
  rw [← hb.2, ← hf, rule_succ] at hb
  rw [← hf, rule_succ]
  have ho := m.ordered_rule hm hend depth
  have hc := choose_cases hb.1
  generalize (m.choose (m.rule depth) name c (m.grammar.variants name) ⟨[], c, none⟩).outcome = o
    at hc
  cases hc with
  | @won i v us e hw hv hs hb =>
    have hp := peg_of_matched hm hend ho (List.mem_of_getElem? hv) hs
    refine Or.inl ⟨i, v, us, e, rfl, hw, hv, ⟨v, hv, hp⟩, ?_⟩
    rintro j hj w hw ⟨d, hp⟩
    cases hp.unique (peg_of_misses hm hend ho (List.mem_of_getElem? hw) (hb j hj w hw))
  | @lost n e hw hb =>
    refine Or.inr ⟨⟨n, e, rfl⟩, hw, fun i d h => ?_⟩
    obtain ⟨v, hv, hp⟩ := h.matching
    have hmem := List.mem_of_getElem? hv
    cases hp.unique (peg_of_misses hm hend ho hmem (hb v hmem))

section

variable (hl : ¬ m.grammar.LeftRecursive) (hm : m.grammar.NoMany) (hend : m.FailsAtEnd)
  {depth : Nat} (hd : m.depthBound ≤ depth)

include hl hm hend hd

theorem rule_matched_iff : (∃ n, (m.rule depth name c).outcome = .matched n e ∧
      m.winner? (m.rule depth) c (m.grammar.variants name) = some i) ↔
    Wins m.grammar m.input name c i e := by
  rcases m.rule_wins hl hm hend hd name c with
    ⟨j, v, us, d, ho, hw, -, hwins⟩ | ⟨⟨n, d, ho⟩, -, hnone⟩
  · rw [ho, hw]
    constructor
    · rintro ⟨n, hn, hi⟩
      cases hn
      cases hi
      exact hwins
    · intro h
      obtain ⟨rfl, rfl⟩ := hwins.unique h
      exact ⟨_, rfl, rfl⟩
  · rw [ho]
    constructor
    · rintro ⟨n, hn, -⟩
      cases hn
    · intro h
      exact (hnone i e h).elim

theorem rule_stuck_iff : (∃ n e, (m.rule depth name c).outcome = .stuck n e) ↔
    ¬ ∃ i e, Wins m.grammar m.input name c i e := by
  rcases m.rule_wins hl hm hend hd name c with
    ⟨i, v, us, e, ho, -, -, hwins⟩ | ⟨hs, -, hnone⟩
  · rw [ho]
    constructor
    · rintro ⟨n, e, hn⟩
      cases hn
    · intro h
      exact (h ⟨i, e, hwins⟩).elim
  · refine ⟨fun _ => ?_, fun _ => hs⟩
    rintro ⟨i, e, h⟩
    exact hnone i e h

/-- The node of a rule is that of the variant that wins. -/
theorem accepted_of_winner {n : Node} (h : (m.rule depth name c).outcome = .matched n e)
    (hi : m.winner? (m.rule depth) c (m.grammar.variants name) = some i) :
    ∃ v us, (m.grammar.variants name)[i]? = some v ∧ n = accepted name c v us e := by
  rcases m.rule_wins hl hm hend hd name c with ⟨j, v, us, d, ho, hw, hv, -⟩ | ⟨⟨n, d, ho⟩, -, -⟩
  · cases ho.symm.trans h
    cases hw.symm.trans hi
    exact ⟨v, us, hv, rfl⟩
  · cases ho.symm.trans h

end

end Matcher

variable {lexicon : Lexicon} {lexemes : List Lexeme}

/-- Variant `i` is the first whose literal tokens the spellings begin with; they are `texts`. -/
structure FirstToBegin (vs : List Variant) (spellings : List (Option String)) (i : Nat)
    (texts : List String) : Prop where
  variant : ∃ v, vs[i]? = some v ∧ v.items = Grammar.literals texts
  begins : texts.map some <+: spellings
  first : ∀ j < i, ∀ w ts, vs[j]? = some w → w.items = Grammar.literals ts →
    ¬ ts.map some <+: spellings

/-- Among variants of literal tokens the first that begins the lexemes wins. -/
theorem wins_iff_firstToBegin
    (hv : ∀ v ∈ g.variants name, ∃ texts, v.items = Grammar.literals texts) :
    Wins g (matcher g lexicon lexemes).input name 0 i e ↔
      ∃ texts, e = texts.length ∧
        FirstToBegin (g.variants name) (lexemes.map lexicon.text?) i texts := by
  have hs (texts : List String) (e : Nat) :
      Peg g (matcher g lexicon lexemes).input (Grammar.literals texts) 0 (some e) ↔
        e = texts.length ∧ texts.map some <+: lexemes.map lexicon.text? := by
    rw [Peg.literals_iff, toList_matcher_input, List.drop_zero, List.map_map, Nat.zero_add]
    rfl
  constructor
  · intro h
    obtain ⟨v, hvi, hp⟩ := h.matching
    obtain ⟨texts, ht⟩ := hv v (List.mem_of_getElem? hvi)
    obtain ⟨he, hb⟩ := (hs texts e).mp (ht ▸ hp)
    refine ⟨texts, he, ⟨v, hvi, ht⟩, hb, fun j hj w ts hw hts hb => ?_⟩
    exact h.first j hj w hw ⟨ts.length, hts ▸ (hs ts _).mpr ⟨rfl, hb⟩⟩
  · rintro ⟨texts, he, ⟨v, hvi, ht⟩, hb, hf⟩
    refine ⟨⟨v, hvi, ht ▸ (hs texts e).mpr ⟨he, hb⟩⟩, ?_⟩
    rintro j hj w hw ⟨d, hp⟩
    obtain ⟨ts, hts⟩ := hv w (List.mem_of_getElem? hw)
    exact hf j hj w ts hw hts ((hs ts d).mp (hts ▸ hp)).2

/-- A parse by its main rule. -/
theorem parse_of_matched {n : Node}
    (h : ((matcher g lexicon lexemes).rule (matcher g lexicon lexemes).depthBound
      g.main 0).outcome = .matched n e) :
    ∃ parsed, parse g lexicon lexemes = some parsed ∧ parsed.tree.root = n ∧
      parsed.tree.ignored = ignoredNode? lexemes (n.span.elim 0 (·.last + 1)) := by
  unfold parse
  dsimp only
  rw [h]
  exact ⟨_, rfl, rfl, rfl⟩

theorem parse_of_stuck {n : Node} {e : Mismatch}
    (h : ((matcher g lexicon lexemes).rule (matcher g lexicon lexemes).depthBound
      g.main 0).outcome = .stuck n e) :
    ∃ parsed, parse g lexicon lexemes = some parsed ∧ parsed.tree.root = n := by
  unfold parse
  dsimp only
  rw [h]
  exact ⟨_, rfl, rfl⟩

/-- The parse by a main rule that has literal tokens only. -/
theorem parse_literals (hl : ¬ g.LeftRecursive) (hm : g.NoMany)
    (hend : (matcher g lexicon lexemes).FailsAtEnd)
    (hv : ∀ v ∈ g.variants g.main, ∃ texts, v.items = Grammar.literals texts) :
    ∃ parsed, parse g lexicon lexemes = some parsed ∧
      (∀ i texts, FirstToBegin (g.variants g.main) (lexemes.map lexicon.text?) i texts →
        (∃ v us, (g.variants g.main)[i]? = some v ∧
          parsed.tree.root = Matcher.accepted g.main 0 v us texts.length) ∧
        (parsed.tree.ignored.isSome ↔ texts.length < lexemes.length)) ∧
      ((¬ ∃ i texts, FirstToBegin (g.variants g.main) (lexemes.map lexicon.text?) i texts) →
        parsed.tree.root.verdict = .failure) := by
  rcases (matcher g lexicon lexemes).rule_wins hl hm hend le_rfl g.main 0 with
    ⟨i, v, us, e, ho, -, hvi, hwins⟩ | ⟨⟨n, e, ho⟩, -, hnone⟩
  · obtain ⟨parsed, hp, hroot, hignored⟩ := parse_of_matched ho
    obtain ⟨texts, he, hfirst⟩ := (wins_iff_firstToBegin hv).mp hwins
    refine ⟨parsed, hp, fun i' texts' h => ?_, fun h => (h ⟨i, texts, hfirst⟩).elim⟩
    obtain ⟨rfl, he'⟩ := hwins.unique ((wins_iff_firstToBegin hv).mpr ⟨texts', rfl, h⟩)
    refine ⟨⟨v, us, hvi, he' ▸ hroot⟩, ?_⟩
    rw [hignored, Option.isSome_iff_ne_none, ne_eq, ← he', ← Nat.not_le]
    exact not_congr ignoredNode?_consumed
  · obtain ⟨parsed, hp, rfl⟩ := parse_of_stuck ho
    refine ⟨parsed, hp, fun i texts h => ?_, fun _ => Matcher.verdict_of_stuck ho⟩
    exact (hnone i _ ((wins_iff_firstToBegin hv).mpr ⟨texts, rfl, h⟩)).elim

/-- On a compiled grammar with neither left recursion nor repetitions a rule matches by a variant
exactly if it is the one that wins by ordered choice, up to the same lexeme, and its node is then
that of the variant; the rule fails exactly if none wins. If the main rule has literal tokens only,
the first variant that begins the lexemes wins, and the lexemes after it, if any, are ignored. -/
theorem ordered_choice_exact {seed : Lexicon} {text : GrammarText} {g : Grammar}
    (hc : Grammar.compile seed text = .ok g) (hl : ¬ g.LeftRecursive) (hm : g.NoMany)
    (lexicon : Lexicon) (lexemes : List Lexeme) :
    (∀ name b depth, (matcher g lexicon lexemes).depthBound ≤ depth →
      (∀ i e, (∃ n, ((matcher g lexicon lexemes).rule depth name b).outcome = .matched n e ∧
          (matcher g lexicon lexemes).winner? ((matcher g lexicon lexemes).rule depth) b
            (g.variants name) = some i) ↔
        Wins g (matcher g lexicon lexemes).input name b i e) ∧
      ((∃ n e, ((matcher g lexicon lexemes).rule depth name b).outcome = .stuck n e) ↔
        ¬ ∃ i e, Wins g (matcher g lexicon lexemes).input name b i e) ∧
      ∀ n e i, ((matcher g lexicon lexemes).rule depth name b).outcome = .matched n e →
        (matcher g lexicon lexemes).winner? ((matcher g lexicon lexemes).rule depth) b
          (g.variants name) = some i →
        ∃ v us, (g.variants name)[i]? = some v ∧ n = Matcher.accepted name b v us e) ∧
    ((∀ v ∈ g.variants g.main, ∃ texts, v.items = Grammar.literals texts) →
      ∃ parsed, parse g lexicon lexemes = some parsed ∧
        (∀ i texts, FirstToBegin (g.variants g.main) (lexemes.map lexicon.text?) i texts →
          (∃ v us, (g.variants g.main)[i]? = some v ∧
            parsed.tree.root = Matcher.accepted g.main 0 v us texts.length) ∧
          (parsed.tree.ignored.isSome ↔ texts.length < lexemes.length)) ∧
        ((¬ ∃ i texts, FirstToBegin (g.variants g.main) (lexemes.map lexicon.text?) i texts) →
          parsed.tree.root.verdict = .failure)) := by
  have hend : (matcher g lexicon lexemes).FailsAtEnd := fun name d hd =>
    peg_none_of_end hl (fun _ => Grammar.ne_nil_of_compile hc) hm hd name
  refine ⟨fun name b depth hd => ⟨fun i e => ?_, ?_, fun n e i h hi => ?_⟩,
    parse_literals hl hm hend⟩
  · exact Matcher.rule_matched_iff hl hm hend hd
  · exact Matcher.rule_stuck_iff hl hm hend hd
  · exact Matcher.accepted_of_winner hl hm hend hd h hi

/-- A rule whose second variant is never taken, and one that refers to it. -/
def signs : Grammar :=
  ⟨[⟨"Sign", [⟨[.terminal "+"], "+"⟩, ⟨[.terminal "+", .terminal "-"], "+ -"⟩]⟩,
    ⟨"Signs", [⟨[.rule "Sign", .terminal ";"], "\x7bSign\x7d ;"⟩,
      ⟨[.rule "Sign"], "\x7bSign\x7d"⟩]⟩], "Sign"⟩

def signsLexicon : Lexicon := .seeded [] ["+", "-", ";"]

/-- The lexemes of `+-;`. -/
def closedSigns : List Lexeme :=
  [⟨.separator, 0, "+", 1, 1, 1⟩, ⟨.separator, 1, "-", 1, 2, 2⟩, ⟨.separator, 2, ";", 1, 3, 3⟩]

theorem not_leftRecursive_signs : ¬ signs.LeftRecursive := by
  apply Grammar.not_leftRecursive_of_rank fun name => if name = "Signs" then 1 else 0
  rintro a b ⟨v, hv, hl⟩
  obtain ⟨r, hr, rfl, he⟩ := Grammar.rule_of_mem_variants hv
  rw [he] at hv
  simp only [signs, List.mem_cons, List.not_mem_nil, or_false] at hr
  rcases hr with rfl | rfl <;> simp only [List.mem_cons, List.not_mem_nil, or_false] at hv <;>
    rcases hv with rfl | rfl <;> simp at hl <;> simp [← hl]

theorem noMany_signs : signs.NoMany := by
  unfold Grammar.NoMany
  decide

/-- The first sign is one lexeme for good, so that the variant with a semicolon fails. -/
theorem ordered_choice_exact_signs :
    Grammar.compile signsLexicon
      ⟨"Sign", [⟨"Sign", "+ | + -"⟩, ⟨"Signs", "\x7bSign\x7d ; | \x7bSign\x7d"⟩]⟩ = .ok signs ∧
    ¬ signs.LeftRecursive ∧ signs.NoMany ∧
    Wins signs (matcher signs signsLexicon closedSigns).input "Signs" 0 1 1 ∧
    ∃ parsed, parse signs signsLexicon closedSigns = some parsed ∧
      (∃ v us, (signs.variants "Sign")[0]? = some v ∧
        parsed.tree.root = Matcher.accepted "Sign" 0 v us 1) ∧
      parsed.tree.ignored.isSome := by
  have hc : Grammar.compile signsLexicon
      ⟨"Sign", [⟨"Sign", "+ | + -"⟩, ⟨"Signs", "\x7bSign\x7d ; | \x7bSign\x7d"⟩]⟩ = .ok signs := by
    cbv
  have hchoice := ordered_choice_exact hc not_leftRecursive_signs noMany_signs signsLexicon
    closedSigns
  refine ⟨hc, not_leftRecursive_signs, noMany_signs, ?_, ?_⟩
  · exact ((hchoice.1 "Signs" 0 9 (by decide)).1 1 1).mp ⟨_, rfl, rfl⟩
  · have hv : ∀ v ∈ signs.variants signs.main, ∃ texts, v.items = Grammar.literals texts :=
      List.forall_mem_cons.mpr ⟨⟨["+"], rfl⟩, List.forall_mem_singleton.mpr ⟨["+", "-"], rfl⟩⟩
    obtain ⟨parsed, hp, hfirst, -⟩ := hchoice.2 hv
    have hb : FirstToBegin (signs.variants "Sign") (closedSigns.map signsLexicon.text?) 0 ["+"] :=
      ⟨⟨_, rfl, rfl⟩, by decide, fun j hj => (Nat.not_lt_zero j hj).elim⟩
    obtain ⟨hroot, hignored⟩ := hfirst 0 ["+"] hb
    exact ⟨parsed, hp, hroot, hignored.mpr (by decide)⟩

end Parse

end Descent
