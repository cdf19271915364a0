import Descent.Parse.Rules
import Descent.Proofs.Grammar.Sequences

/-!
How the parts of a match go on. A sequence goes from item to item, a repetition from turn to turn
and a rule from variant to variant. Each of these steps is told here by its cases.
-/
namespace Descent

namespace Grammar

/-- An item that takes one lexeme. -/
def Item.isSingle : Item → Bool
  | .terminal _ | .lexical _ => true
  | .rule _ | .many _ => false

/-- Induction over sequences, into the bodies of repetitions too. -/
@[elab_as_elim]
theorem items_induction {P : List Item → Prop} (nil : P [])
    (single : ∀ i rest, i.isSingle → P rest → P (i :: rest))
    (rule : ∀ name rest, P rest → P (.rule name :: rest))
    (many : ∀ body rest, P body → P rest → P (.many body :: rest)) :
    (items : List Item) → P items
  | [] => nil
  | .terminal _ :: rest => single _ rest rfl (items_induction nil single rule many rest)
  | .lexical _ :: rest => single _ rest rfl (items_induction nil single rule many rest)
  | .rule name :: rest => rule name rest (items_induction nil single rule many rest)
  | .many body :: rest =>
    many body rest (items_induction nil single rule many body)
      (items_induction nil single rule many rest)

end Grammar

namespace Parse

open Grammar (Item Variant)

variable {α β : Type}

namespace Outcome

variable {o : Outcome α} {f : α → β} {b : β} {d : Nat} {e : Mismatch}

@[simp] theorem map_matched (a : α) : (Outcome.matched a d).map f = .matched (f a) d := rfl

@[simp] theorem map_stuck (a : α) : (Outcome.stuck a e).map f = .stuck (f a) e := rfl

@[simp] theorem map_unfinished : (Outcome.unfinished : Outcome α).map f = .unfinished := rfl

theorem map_eq_matched : o.map f = .matched b d ↔ ∃ a, o = .matched a d ∧ f a = b := by
  cases o <;> simp [Outcome.map]
  grind

@[simp] theorem map_eq_unfinished : o.map f = .unfinished ↔ o = .unfinished := by
  cases o <;> simp [Outcome.map]

end Outcome

namespace Step

variable {s : Step (List Node)} {k : Nat → Step (List Node)} {us ns : List Node} {c d : Nat}
  {e : Mismatch}

@[simp] theorem outcome_map (s : Step α) (f : α → β) : (s.map f).outcome = s.outcome.map f := rfl

@[simp] theorem outcome_reporting (events : List Event) (s : Step α) :
    (s.reporting events).outcome = s.outcome := rfl

theorem andThen_matched (h : s.outcome = .matched us c) :
    (s.andThen k).outcome = (k c).outcome.map (us ++ ·) := by
  simp [andThen, h]

theorem andThen_stuck (h : s.outcome = .stuck us e) : s.andThen k = s := by
  simp [andThen, h]

theorem andThen_unfinished (h : s.outcome = .unfinished) : s.andThen k = s := by
  simp [andThen, h]

theorem andThen_finishes (hs : s.outcome ≠ .unfinished)
    (hk : ∀ us c, s.outcome = .matched us c → (k c).outcome ≠ .unfinished) :
    (s.andThen k).outcome ≠ .unfinished := by
  cases ho : s.outcome with
  | matched us c =>
    rw [andThen_matched ho, ne_eq, Outcome.map_eq_unfinished]
    exact hk us c ho
  | stuck us e => simp [andThen_stuck ho, ho]
  | unfinished => exact (hs ho).elim

theorem matched_of_andThen (h : (s.andThen k).outcome = .matched ns d) :
    ∃ us c vs, s.outcome = .matched us c ∧ (k c).outcome = .matched vs d ∧ ns = us ++ vs := by
  cases hs : s.outcome with
  | matched us c =>
    rw [andThen_matched hs, Outcome.map_eq_matched] at h
    obtain ⟨vs, hk, rfl⟩ := h
    exact ⟨us, c, vs, rfl, hk, rfl⟩
  | stuck us e => rw [andThen_stuck hs, hs] at h; cases h
  | unfinished => rw [andThen_unfinished hs, hs] at h; cases h

end Step

namespace Matcher

variable {m : Matcher} {call : String → Nat → Step Node} {i : Item} {c d : Nat}

@[simp] theorem sequence_nil : m.sequence call [] c = ⟨.matched [] c, []⟩ := by
  rw [sequence]

theorem sequence_cons (rest : List Item) :
    m.sequence call (i :: rest) c = (m.item call i c).andThen (m.sequence call rest) := by
  rw [sequence]

theorem item_many (body : List Item) : m.item call (.many body) c =
    m.iterate (Grammar.first? body) (m.sequence call body) (m.input.size - c) c := by
  rw [item]

theorem item_rule (name : String) (h : c < m.input.size) :
    m.item call (.rule name) c = (call name c).map ([·]) := by
  rw [item, if_pos h]

theorem item_rule_end (name : String) (h : ¬ c < m.input.size) :
    m.item call (.rule name) c = ⟨.stuck [] (m.mismatch name c), []⟩ := by
  rw [item, if_neg h]

/-- A lexeme that an item takes. -/
theorem item_taken {token : Token} (hi : m.input[c]? = some token) (ht : takes i token) :
    m.item call i c = ⟨.matched [leaf c token] (c + 1), []⟩ := by
  cases i with
  | terminal | lexical => rw [item, hi]; simp [ht]
  | rule | many => simp [takes] at ht

/-- An item for one lexeme that does not take the one there is, or stands at the end of input. -/
theorem item_refused (hs : i.isSingle) (ht : ∀ token, m.input[c]? = some token → ¬ takes i token) :
    m.item call i c = ⟨.stuck [] (m.mismatch (expected i) c), []⟩ := by
  cases i with
  | terminal | lexical =>
    rw [item]
    cases hi : m.input[c]? with
    | none => rfl
    | some token => simp [ht token hi, expected]
  | rule | many => simp [Item.isSingle] at hs

theorem item_single (m : Matcher) (call : String → Nat → Step Node) (c : Nat) (hs : i.isSingle) :
    (∃ token, m.input[c]? = some token ∧ takes i token ∧
      m.item call i c = ⟨.matched [leaf c token] (c + 1), []⟩) ∨
    (∀ token, m.input[c]? = some token → ¬ takes i token) ∧
      m.item call i c = ⟨.stuck [] (m.mismatch (expected i) c), []⟩ := by
  by_cases h : ∃ token, m.input[c]? = some token ∧ takes i token
  · obtain ⟨token, hi, ht⟩ := h
    exact Or.inl ⟨token, hi, ht, item_taken hi ht⟩
  · have ht : ∀ token, m.input[c]? = some token → ¬ takes i token :=
      fun token hi ht => h ⟨token, hi, ht⟩
    exact Or.inr ⟨ht, item_refused hs ht⟩

variable {first : Option Item} {body body' again again' : Nat → Step (List Node)}
  {limit limit' : Nat} {o : Outcome (List Node)}

/-- One turn of a repetition; `again` is the repetition after it. -/
def turn (m : Matcher) (first : Option Item) (body again : Nat → Step (List Node)) (c : Nat) :
    Step (List Node) :=
  if c < m.input.size ∧ m.admits first c then
    match (body c).outcome with
    | .matched us d =>
      if d = c then ⟨.matched us c, (body c).events⟩
      else ((again d).map (us ++ ·)).reporting (body c).events
    | .stuck _ e => if e.reached = c then ⟨.matched [] c, (body c).events⟩ else body c
    | .unfinished => body c
  else ⟨.matched [] c, []⟩

@[simp] theorem iterate_zero : m.iterate first body 0 c = ⟨.matched [] c, []⟩ := by
  rw [iterate]

theorem iterate_succ :
    m.iterate first body (limit + 1) c = m.turn first body (m.iterate first body limit) c := by
  rw [iterate]
  rfl

/-- What one turn of a repetition comes to. -/
inductive Turn (m : Matcher) (first : Option Item) (body again : Nat → Step (List Node)) (c : Nat) :
    Outcome (List Node) → Prop
  | closed (h : ¬ (c < m.input.size ∧ m.admits first c)) : Turn m first body again c (.matched [] c)
  /-- The body took nothing. -/
  | idle {us} (h : c < m.input.size ∧ m.admits first c) (hb : (body c).outcome = .matched us c) :
      Turn m first body again c (.matched us c)
  | onward {us d q} (h : c < m.input.size ∧ m.admits first c)
      (hb : (body c).outcome = .matched us d) (hd : d ≠ c)
      (ho : (again d).outcome.map (us ++ ·) = q) : Turn m first body again c q
  /-- The body failed at its first lexeme. -/
  | undone {us e} (h : c < m.input.size ∧ m.admits first c)
      (hb : (body c).outcome = .stuck us e) (he : e.reached = c) :
      Turn m first body again c (.matched [] c)
  | failed {us e} (h : c < m.input.size ∧ m.admits first c)
      (hb : (body c).outcome = .stuck us e) (he : e.reached ≠ c) :
      Turn m first body again c (.stuck us e)
  | unfinished (h : c < m.input.size ∧ m.admits first c) (hb : (body c).outcome = .unfinished) :
      Turn m first body again c .unfinished

theorem turn_cases (h : (m.turn first body again c).outcome = o) : Turn m first body again c o := by
  subst h
  unfold turn
  split
  · rename_i h
    cases hb : (body c).outcome with
    | matched us d =>
      by_cases hd : d = c
      · subst hd
        simpa using Turn.idle h hb
      · simpa [hd] using Turn.onward h hb hd rfl
    | stuck us e =>
      by_cases he : e.reached = c
      · simpa [he] using Turn.undone h hb he
      · simpa [he, hb] using Turn.failed h hb he
    | unfinished => simpa [hb] using Turn.unfinished h hb
  · exact Turn.closed ‹_›

theorem iterate_turn (h : (m.iterate first body (limit + 1) c).outcome = o) :
    Turn m first body (m.iterate first body limit) c o :=
  turn_cases (iterate_succ ▸ h)

theorem turn_congr (hb : body' c = body c)
    (ha : ∀ us d, (body c).outcome = .matched us d → d ≠ c → again' d = again d) :
    m.turn first body' again' c = m.turn first body again c := by
  unfold turn
  rw [hb]
  cases ho : (body c).outcome with
  | matched us d =>
    by_cases hd : d = c
    · simp [hd]
    · simp [hd, ha us d ho hd]
  | stuck | unfinished => rfl

theorem turn_end (h : ¬ c < m.input.size) : m.turn first body again c = ⟨.matched [] c, []⟩ := by
  rw [turn, if_neg (fun ho => h ho.1)]

theorem iterate_end (h : ¬ c < m.input.size) :
    m.iterate first body limit c = ⟨.matched [] c, []⟩ := by
  cases limit with
  | zero => exact iterate_zero
  | succ limit => rw [iterate_succ, turn_end h]

/-- As many iterations as there are lexemes left are enough. -/
theorem iterate_limit (hp : ∀ c us d, (body c).outcome = .matched us d → c ≤ d)
    (hl : m.input.size - c ≤ limit) (hl' : m.input.size - c ≤ limit') :
    m.iterate first body limit' c = m.iterate first body limit c := by
  induction limit generalizing limit' c with
  | zero => rw [iterate_end (by omega), iterate_end (by omega)]
  | succ limit ih =>
    by_cases hc : c < m.input.size
    · obtain ⟨limit', rfl⟩ : ∃ k, limit' = k + 1 := ⟨limit' - 1, by omega⟩
      rw [iterate_succ, iterate_succ]
      apply turn_congr rfl
      intro us d ho hd
      have hcd := hp c us d ho
      exact ih (by omega) (by omega)
    · rw [iterate_end hc, iterate_end hc]

/-- A repetition is one turn and then the same repetition again, however often. -/
theorem item_many_turn {items : List Item} (hp : ∀ c us d,
      (m.sequence call items c).outcome = .matched us d → c ≤ d) :
    m.item call (.many items) c = m.turn (Grammar.first? items) (m.sequence call items)
      (m.item call (.many items)) c := by
  by_cases hc : c < m.input.size
  · rw [item_many, show m.input.size - c = m.input.size - (c + 1) + 1 by omega, iterate_succ]
    apply turn_congr rfl
    intro us d ho hd
    have hcd := hp c us d ho
    rw [item_many]
    exact iterate_limit hp (by omega) (by omega)
  · rw [item_many, iterate_end hc, turn_end hc]

/-- An item for one lexeme says what it calls for. -/
theorem labels_of_isSingle (hs : i.isSingle) : i.labels = [expected i] := by
  cases i with
  | terminal | lexical => rfl
  | rule | many => simp [Item.isSingle] at hs

/-- A property of what items come to at a lexeme that goes over from one step to the next. The
`labels` are what the items call for. -/
structure Stepwise (m : Matcher) (labels : List String) (Q : Nat → Outcome (List Node) → Prop) :
    Prop where
  nil (c : Nat) : Q c (.matched [] c)
  taken {c : Nat} {token : Token} (h : m.input[c]? = some token) :
    Q c (.matched [leaf c token] (c + 1))
  refused (c : Nat) (what : String) (h : what ∈ labels) : Q c (.stuck [] (m.mismatch what c))
  unfinished (c : Nat) : Q c .unfinished
  prepend {c d : Nat} {us : List Node} {o : Outcome (List Node)} (hu : Q c (.matched us d))
    (ho : Q d o) : Q c (o.map (us ++ ·))

namespace Stepwise

variable {labels : List String} {Q : Nat → Outcome (List Node) → Prop}

theorem andThen (hq : m.Stepwise labels Q) {s : Step (List Node)} {k : Nat → Step (List Node)}
    (hs : Q c s.outcome) (hk : ∀ d, Q d (k d).outcome) : Q c (s.andThen k).outcome := by
  cases ho : s.outcome with
  | matched us d =>
    rw [Step.andThen_matched ho]
    exact hq.prepend (ho ▸ hs) (hk d)
  | stuck us e =>
    rw [Step.andThen_stuck ho]
    exact hs
  | unfinished =>
    rw [Step.andThen_unfinished ho]
    exact hs

/-- A repetition keeps an iteration that takes nothing and drops one that fails at its first
lexeme. -/
theorem iterate (hq : m.Stepwise labels Q) (hb : ∀ d, Q d (body d).outcome) (limit c : Nat) :
    Q c (m.iterate first body limit c).outcome := by
  induction limit generalizing c with
  | zero =>
    rw [iterate_zero]
    exact hq.nil c
  | succ limit ih =>
    generalize ho : (m.iterate first body (limit + 1) c).outcome = o
    have hbc := hb c
    cases iterate_turn ho with
    | closed | undone => exact hq.nil c
    | idle _ hu | failed _ hu _ => exact hu ▸ hbc
    | onward _ hu _ ho => exact ho ▸ hq.prepend (hu ▸ hbc) (ih _)
    | unfinished => exact hq.unfinished c

/-- What holds of the rules that are called holds of every sequence. -/
theorem sequence (hq : m.Stepwise labels Q)
    (hcall : ∀ name ∈ labels, ∀ d, d < m.input.size → Q d ((call name d).outcome.map ([·])))
    (items : List Item) (hl : ∀ what ∈ Grammar.labels items, what ∈ labels) (c : Nat) :
    Q c (m.sequence call items c).outcome := by
  induction items using Grammar.items_induction generalizing c with
  | nil =>
    rw [sequence_nil]
    exact hq.nil c
  | single i rest hi ih =>
    rw [Grammar.labels_cons, List.forall_mem_append, labels_of_isSingle hi] at hl
    rw [sequence_cons]
    refine hq.andThen ?_ (ih hl.2)
    rcases item_single m call c hi with ⟨token, hin, _, he⟩ | ⟨_, he⟩
    · rw [he]
      exact hq.taken hin
    · rw [he]
      exact hq.refused c _ (hl.1 _ List.mem_cons_self)
  | rule name rest ih =>
    rw [Grammar.labels_cons, List.forall_mem_append] at hl
    rw [sequence_cons]
    refine hq.andThen ?_ (ih hl.2)
    have hname : name ∈ labels := hl.1 name List.mem_cons_self
    by_cases hlt : c < m.input.size
    · rw [item_rule name hlt]
      exact hcall name hname c hlt
    · rw [item_rule_end name hlt]
      exact hq.refused c name hname
  | many body rest ihb ihr =>
    rw [Grammar.labels_cons, List.forall_mem_append] at hl
    rw [sequence_cons, item_many]
    exact hq.andThen (hq.iterate (ihb hl.1) _ c) (ihr hl.2)

end Stepwise

variable {name : String} {v : Variant} {vs : List Variant} {f : Failures} {n : Node}
  {p : Outcome Node}

/-- What the attempt of one variant comes to; `others` tries those after it. -/
inductive Attempt (m : Matcher) (call : String → Nat → Step Node) (name : String) (c : Nat)
    (v : Variant) (others : Failures → Step Node) (f : Failures) : Outcome Node → Prop
  | pruned {q} (h : ¬ m.admits (Grammar.first? v.items) c) (hp : (others f).outcome = q) :
      Attempt m call name c v others f q
  | matched {us d} (h : m.admits (Grammar.first? v.items) c)
      (hv : (m.sequence call v.items c).outcome = .matched us d) :
      Attempt m call name c v others f (.matched (accepted name c v us d) d)
  | failed {us e q} (h : m.admits (Grammar.first? v.items) c)
      (hv : (m.sequence call v.items c).outcome = .stuck us e)
      (hp : (others (m.addFailure name c v us e f)).outcome = q) :
      Attempt m call name c v others f q
  | unfinished (h : m.admits (Grammar.first? v.items) c)
      (hv : (m.sequence call v.items c).outcome = .unfinished) :
      Attempt m call name c v others f .unfinished

@[simp] theorem choose_nil : m.choose call name c [] f = ⟨m.rejected name c f, []⟩ := by
  rw [choose]

theorem choose_pruned (h : ¬ m.admits (Grammar.first? v.items) c) :
    m.choose call name c (v :: vs) f = m.choose call name c vs f := by
  rw [choose, if_neg h]

theorem choose_matched {us : List Node} (h : m.admits (Grammar.first? v.items) c)
    (hv : (m.sequence call v.items c).outcome = .matched us d) :
    (m.choose call name c (v :: vs) f).outcome = .matched (accepted name c v us d) d := by
  simp [choose, h, hv]

theorem choose_failed {us : List Node} {e : Mismatch} (h : m.admits (Grammar.first? v.items) c)
    (hv : (m.sequence call v.items c).outcome = .stuck us e) :
    (m.choose call name c (v :: vs) f).outcome =
      (m.choose call name c vs (m.addFailure name c v us e f)).outcome := by
  simp [choose, h, hv]

theorem choose_unfinished (h : m.admits (Grammar.first? v.items) c)
    (hv : (m.sequence call v.items c).outcome = .unfinished) :
    (m.choose call name c (v :: vs) f).outcome = .unfinished := by
  simp [choose, h, hv]

theorem choose_attempt (h : (m.choose call name c (v :: vs) f).outcome = p) :
    Attempt m call name c v (m.choose call name c vs) f p := by
  subst h
  by_cases ha : m.admits (Grammar.first? v.items) c
  · cases hv : (m.sequence call v.items c).outcome with
    | matched us d => exact choose_matched ha hv ▸ .matched ha hv
    | stuck us e => exact .failed ha hv (choose_failed ha hv).symm
    | unfinished => exact choose_unfinished ha hv ▸ .unfinished ha hv
  · exact .pruned ha (by rw [choose_pruned ha])

/-- A rule that matches does so by one of its variants. -/
theorem matched_of_choose (h : (m.choose call name c vs f).outcome = .matched n d) :
    ∃ v ∈ vs, ∃ us, (m.sequence call v.items c).outcome = .matched us d ∧
      n = accepted name c v us d := by
  induction vs generalizing f with
  | nil => simp [rejected] at h
  | cons v rest ih =>
    cases choose_attempt h with
    | pruned _ hp | failed _ _ hp =>
      obtain ⟨w, hw, hr⟩ := ih hp
      exact ⟨w, List.mem_cons_of_mem v hw, hr⟩
    | matched _ hv => exact ⟨v, List.mem_cons_self, _, hv, rfl⟩

/-- A rule fails only when its variants are used up. -/
theorem stuck_of_choose {e : Mismatch} (h : (m.choose call name c vs f).outcome = .stuck n e) :
    ∃ f', m.rejected name c f' = .stuck n e := by
  induction vs generalizing f with
  | nil => exact ⟨f, by simpa using h⟩
  | cons v rest ih =>
    cases choose_attempt h with
    | pruned _ hp | failed _ _ hp => exact ih hp

theorem rule_zero : m.rule 0 name c = ⟨.unfinished, []⟩ := by
  rw [rule]

theorem rule_succ (depth : Nat) : m.rule (depth + 1) name c =
    m.choose (m.rule depth) name c (m.grammar.variants name) ⟨[], c, none⟩ := by
  rw [rule]

end Matcher

end Parse

end Descent
