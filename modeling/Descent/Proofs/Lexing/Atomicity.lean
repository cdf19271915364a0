import Descent.Proofs.Lexing.InPlace

/-!
What stops a substitution, and what it leaves behind. A token that cannot be laid stops a rule at
the first occurrence of its pattern, before anything has been replaced, for it is the same token at
every occurrence.
-/
namespace Descent.Lexing

open Text (Position)

variable {l : Lexicon} {p token : String} {ps pattern result new tokens : List String}
  {s : Splice} {t : Substitution} {ts rules : List Substitution} {x : Lexeme}
  {xs ys found : List Lexeme} {place : Position} {f : Fault}

/-- The token is neither a word nor a separator. -/
def Unlisted (l : Lexicon) (token : String) : Prop :=
  token ∉ l.words.atoms ∧ token ∉ l.separators.atoms

/-- The first token of a list that cannot be laid. -/
def FirstUnlisted (l : Lexicon) (tokens : List String) (token : String) : Prop :=
  ∃ listed more, tokens = listed ++ token :: more ∧ (∀ u ∈ listed, ¬ Unlisted l u) ∧
    Unlisted l token

theorem unlisted_iff : Unlisted l token ↔ l.terminal? token = none := by
  rw [← Option.not_isSome_iff_eq_none, Lexicon.isSome_terminal?, not_or]
  rfl

theorem exists_insert_iff : (∃ y, insert l place token = .ok y) ↔ ¬ Unlisted l token := by
  rw [unlisted_iff, ← ne_eq, Option.ne_none_iff_exists']
  constructor
  · rintro ⟨y, hy⟩
    obtain ⟨category, i, ht, -⟩ := insert_eq_ok_iff.mp hy
    exact ⟨_, ht⟩
  · rintro ⟨⟨category, i⟩, ht⟩
    exact ⟨_, insert_eq_ok_iff.mpr ⟨category, i, ht, rfl⟩⟩

theorem apply_eq_error_iff : s.apply l found = .error f ↔
    ∃ token, FirstUnlisted l s.inserted token ∧ f = ⟨.unresolvedToken token, s.origin found⟩ := by
  rw [Splice.apply, map_eq_error_iff, mapM_eq_error_iff]
  constructor
  · rintro ⟨listed, token, more, htokens, hlisted, htoken⟩
    obtain ⟨hnone, rfl⟩ := insert_eq_error_iff.mp htoken
    exact ⟨token, ⟨listed, more, htokens, fun u hu => exists_insert_iff.mp (hlisted u hu),
      unlisted_iff.mpr hnone⟩, rfl⟩
  · rintro ⟨token, ⟨listed, more, htokens, hlisted, hunlisted⟩, rfl⟩
    exact ⟨listed, token, more, htokens, fun u hu => exists_insert_iff.mpr (hlisted u hu),
      insert_eq_error_iff.mpr ⟨unlisted_iff.mp hunlisted, rfl⟩⟩

theorem exists_firstUnlisted_iff :
    (∃ token, FirstUnlisted l tokens token) ↔ ∃ token ∈ tokens, Unlisted l token := by
  constructor
  · rintro ⟨token, listed, more, rfl, -, hunlisted⟩
    exact ⟨token, List.mem_append_right listed List.mem_cons_self, hunlisted⟩
  · rintro ⟨token, hmem, hunlisted⟩
    induction tokens with
    | nil => cases hmem
    | cons first tokens ih =>
      by_cases hfirst : Unlisted l first
      · exact ⟨first, [], tokens, rfl, List.forall_mem_nil _, hfirst⟩
      · have htail : token ∈ tokens := by
          rcases List.mem_cons.mp hmem with rfl | hmem
          · exact (hfirst hunlisted).elim
          · exact hmem
        obtain ⟨other, listed, more, rfl, hlisted, hother⟩ := ih htail
        exact ⟨other, first :: listed, more, rfl, List.forall_mem_cons.mpr ⟨hfirst, hlisted⟩,
          hother⟩

/-- Whether an occurrence can be replaced does not depend on the occurrence. -/
theorem exists_apply_error_iff :
    (∃ f, s.apply l found = .error f) ↔ ∃ token ∈ s.inserted, Unlisted l token := by
  rw [← exists_firstUnlisted_iff]
  constructor
  · rintro ⟨f, h⟩
    obtain ⟨token, hfirst, -⟩ := apply_eq_error_iff.mp h
    exact ⟨token, hfirst⟩
  · rintro ⟨token, hfirst⟩
    exact ⟨_, apply_eq_error_iff.mpr ⟨token, hfirst, rfl⟩⟩

theorem replaceAll_succeeds (h : ¬ ∃ token ∈ s.inserted, Unlisted l token) :
    (replaceAll l p ps s xs).fault = none := by
  fun_induction replaceAll l p ps s xs with
  | case1 => rfl
  | case2 x xs _ f ha => exact (h (exists_apply_error_iff.mp ⟨f, ha⟩)).elim
  | case3 x xs _ new _ ih | case4 x xs _ ih => exact ih

/-- A token that cannot be laid stops the replacement at the leftmost occurrence. -/
theorem replaceAll_stops (h : ∃ token ∈ s.inserted, Unlisted l token)
    (ho : p :: ps <:+: xs.map Lexeme.text) : ∃ gap found rest f,
      Leftmost (p :: ps) xs gap found rest ∧ s.apply l found = .error f ∧
      replaceAll l p ps s xs = ⟨xs, 0, some f⟩ := by
  fun_induction replaceAll l p ps s xs with
  | case1 => simp at ho
  | case2 x xs hm f ha => exact ⟨_, _, _, f, leftmost_of_matches hm, ha, rfl⟩
  | case3 x xs hm new ha =>
    obtain ⟨f, hf⟩ := exists_apply_error_iff.mpr h
    cases ha.symm.trans hf
  | case4 x xs hm ih =>
    have hnot := mt matches_iff_begins.mpr hm
    rcases List.infix_cons_iff.mp ho with hbegins | hlater
    · exact (hnot hbegins).elim
    · obtain ⟨gap, found, rest, f, leftmost, ha, hr⟩ := ih hlater
      refine ⟨x :: gap, found, rest, f, leftmost.cons hnot, ha, ?_⟩
      rw [hr]
      rfl

theorem infix_of_fault (h : (replaceAll l p ps s xs).fault = some f) :
    p :: ps <:+: xs.map Lexeme.text := by
  fun_induction replaceAll l p ps s xs with
  | case1 => cases h
  | case2 x xs hm | case3 x xs hm => exact (matches_iff_begins.mp hm).isInfix
  | case4 x xs hm ih => exact List.infix_cons (ih h)

/-- A rule that cannot do its work on a list: its pattern occurs there, and of the tokens that would
have to be laid one is listed nowhere. -/
structure Stuck (l : Lexicon) (t : Substitution) (xs : List Lexeme) : Prop where
  proper : t.pattern ≠ t.result
  looks : t.pattern ≠ []
  occurs : t.pattern <:+: xs.map Lexeme.text
  unlisted : ∃ front old new back, Aligned t.pattern t.result front old new back ∧
    ∃ token ∈ new, Unlisted l token

/-- The fault of a stuck rule is about the first of those tokens, and lies where the origin of the
leftmost occurrence begins. -/
inductive Blames (l : Lexicon) (t : Substitution) (xs : List Lexeme) : Fault → Prop
  | intro {front old new back : List String} {gap kept gone kept' rest : List Lexeme} {x : Lexeme}
      {token : String} (aligned : Aligned t.pattern t.result front old new back)
      (leftmost : Leftmost t.pattern xs gap (kept ++ gone ++ kept') rest)
      (hfront : kept.map Lexeme.text = front) (hold : gone.map Lexeme.text = old)
      (hback : kept'.map Lexeme.text = back) (horigin : origin? (kept ++ gone) kept' = some x)
      (hfirst : FirstUnlisted l new token) : Blames l t xs ⟨.unresolvedToken token, x.first⟩

theorem stops_of_stuck (h : Stuck l t xs) (hp : t.pattern = p :: ps) : ∃ f, Blames l t xs f ∧
    replaceAll l p ps (.between (p :: ps) t.result) xs = ⟨xs, 0, some f⟩ := by
  obtain ⟨front, old, new, back, aligned, hunlisted⟩ := h.unlisted
  obtain ⟨front', old', back', aligned', -, hlen⟩ := exists_aligned t.pattern t.result
  obtain ⟨rfl, rfl, rfl, rfl⟩ := aligned.unique aligned'
  have hoccurs := h.occurs
  rw [hp] at hunlisted hoccurs
  obtain ⟨gap, found, rest, f, leftmost, hf, hr⟩ := replaceAll_stops hunlisted hoccurs
  obtain ⟨token, hfirst, rfl⟩ := apply_eq_error_iff.mp hf
  rw [← hp] at leftmost hfirst
  obtain ⟨kept, gone, kept', rfl, hfront, hold, hback⟩ := exists_of_aligned aligned leftmost.here
  rw [← hback, List.length_map] at hlen
  obtain ⟨x, hx, horigin⟩ := exists_origin? hlen (ne_nil_of_texts leftmost.here h.looks)
  rw [hp] at horigin
  refine ⟨_, .intro aligned leftmost hfront hold hback hx hfirst, ?_⟩
  rw [hr, horigin]

theorem stuck_of_fault (hi : ¬ t.isIdentity) (hp : t.pattern = p :: ps)
    (h : (replaceAll l p ps (.between (p :: ps) t.result) xs).fault = some f) : Stuck l t xs := by
  obtain ⟨front, old, back, aligned, -⟩ := exists_aligned t.pattern t.result
  refine ⟨by simpa [Substitution.isIdentity] using hi, by simp [hp], hp ▸ infix_of_fault h, front,
    old, _, back, aligned, ?_⟩
  by_contra hlisted
  rw [hp] at hlisted
  cases h.symm.trans (replaceAll_succeeds hlisted)

/-- Rules that come to their end hand their list on to the rules after them. -/
theorem Runs.append {o o' : Option Fault} {zs : List Lexeme} (h : Runs l rules xs ys o)
    (ho : o = none) (h' : Runs l ts ys zs o') : Runs l (rules ++ ts) xs zs o' := by
  induction h with
  | nil => exact h'
  | skipped hs _ ih => exact .skipped hs (ih ho h')
  | stopped => cases ho
  | passed hi hp hr hf _ ih => exact .passed hi hp hr hf (ih ho h')

/-- The rules before the `k`-th come to their end with `ys`, and that rule is stuck there. -/
structure StuckAt (l : Lexicon) (rules : List Substitution) (xs : List Lexeme) (k : Nat)
    (t : Substitution) (ys : List Lexeme) : Prop where
  rule : rules[k]? = some t
  before : (substitute l (rules.take k) xs).fault = none
  list : (substitute l (rules.take k) xs).lexemes = ys
  stuck : Stuck l t ys

theorem stuckAt_iff {k : Nat} : StuckAt l rules xs k t ys ↔
    rules[k]? = some t ∧ Runs l (rules.take k) xs ys none ∧ Stuck l t ys := by
  rw [runs_iff]
  constructor
  · rintro ⟨hrule, hbefore, hlist, hstuck⟩
    exact ⟨hrule, ⟨hlist, hbefore⟩, hstuck⟩
  · rintro ⟨hrule, ⟨hlist, hbefore⟩, hstuck⟩
    exact ⟨hrule, hbefore, hlist, hstuck⟩

theorem exists_stuckAt {o : Option Fault} (h : Runs l rules xs ys o) (ho : o.isSome) :
    ∃ k t ys, StuckAt l rules xs k t ys := by
  induction h with
  | nil => cases ho
  | skipped hs _ ih =>
    obtain ⟨k, u, ys, hk⟩ := ih ho
    obtain ⟨hrule, hbefore, hstuck⟩ := stuckAt_iff.mp hk
    exact ⟨k + 1, u, ys, stuckAt_iff.mpr ⟨hrule, .skipped hs hbefore, hstuck⟩⟩
  | @stopped t ts xs q qs r f hi hp hr hf =>
    subst hr
    exact ⟨0, t, xs, stuckAt_iff.mpr ⟨rfl, .nil, stuck_of_fault hi hp hf⟩⟩
  | passed hi hp hr hf _ ih =>
    obtain ⟨k, u, ys, hk⟩ := ih ho
    obtain ⟨hrule, hbefore, hstuck⟩ := stuckAt_iff.mp hk
    exact ⟨k + 1, u, ys, stuckAt_iff.mpr ⟨hrule, .passed hi hp hr hf hbefore, hstuck⟩⟩

theorem StuckAt.stops {k : Nat} (h : StuckAt l rules xs k t ys) :
    ∃ f, Blames l t ys f ∧ Runs l rules xs ys (some f) := by
  obtain ⟨hrule, hbefore, hstuck⟩ := stuckAt_iff.mp h
  obtain ⟨p, ps, hp⟩ := List.exists_cons_of_ne_nil hstuck.looks
  obtain ⟨f, hblames, hr⟩ := stops_of_stuck hstuck hp
  have hi : ¬ t.isIdentity := by simpa [Substitution.isIdentity] using hstuck.proper
  have hrules : rules = rules.take k ++ t :: rules.drop (k + 1) := by
    obtain ⟨hk, rfl⟩ := List.getElem?_eq_some_iff.mp hrule
    rw [← List.drop_eq_getElem_cons hk, List.take_append_drop]
  refine ⟨f, hblames, ?_⟩
  rw [hrules]
  exact hbefore.append rfl (.stopped hi hp hr rfl)

/-- No more than one rule is stuck, for none comes to its turn after it. -/
theorem StuckAt.le {j k : Nat} {u : Substitution} {zs : List Lexeme}
    (h : StuckAt l rules xs k t ys) (hj : StuckAt l rules xs j u zs) : k ≤ j := by
  by_contra hlt
  have hearlier : StuckAt l (rules.take k) xs j u zs := by
    have htake : (rules.take k).take j = rules.take j := by
      rw [List.take_take, Nat.min_eq_left (by omega)]
    refine ⟨?_, htake ▸ hj.before, htake ▸ hj.list, hj.stuck⟩
    rw [List.getElem?_take_of_lt (by omega)]
    exact hj.rule
  obtain ⟨f, -, hrun⟩ := hearlier.stops
  cases h.before.symm.trans (runs_iff.mp hrun).2

/-- Substitutions fail exactly if some rule is stuck on what those before it have made. It is the
only one, leaves that list just as it was, in place too, and is to blame for the fault. -/
theorem stuck_substitution_atomic (l : Lexicon) (rules : List Substitution) (xs : List Lexeme) :
    ((substitute l rules xs).fault.isSome ↔ ∃ k t ys, StuckAt l rules xs k t ys) ∧
      ∀ k t ys, StuckAt l rules xs k t ys →
        (∀ j u zs, StuckAt l rules xs j u zs → j = k) ∧
        ∃ f, Blames l t ys f ∧ (substitute l rules xs).lexemes = ys ∧
          (substitute l rules xs).fault = some f ∧
          substituteInPlace? l rules xs = some (ys, some f) := by
  refine ⟨⟨exists_stuckAt (runs_substitute l rules xs), ?_⟩,
    fun k t ys h => ⟨fun j u zs hj => ?_, ?_⟩⟩
  · rintro ⟨k, t, ys, h⟩
    obtain ⟨f, -, hrun⟩ := h.stops
    rw [(runs_iff.mp hrun).2]
    rfl
  · exact Nat.le_antisymm (hj.le h) (h.le hj)
  · obtain ⟨f, hblames, hrun⟩ := h.stops
    obtain ⟨hx, hf⟩ := runs_iff.mp hrun
    exact ⟨f, hblames, hx, hf, substituteInPlace?_of_runs hrun⟩

/-- The token that would have to go between two others is listed nowhere. -/
def division : Substitution := ⟨"end end", "end stop end"⟩

def twoEnds : List Lexeme := (scan blocks .start "a < = b end end c end end".toList).lexemes

theorem stuck_division (h : division.pattern <:+: xs.map Lexeme.text) :
    Stuck blocks division xs := by
  have hpattern : division.pattern = ["end", "end"] := by decide +kernel
  have hresult : division.result = ["end", "stop", "end"] := by decide +kernel
  have aligned : Aligned division.pattern division.result ["end"] [] ["stop"] ["end"] := by
    refine ⟨hpattern, hresult, ?_, fun a us vs h => by cases h⟩
    intro a us vs h h'
    obtain ⟨rfl, -⟩ := List.cons.inj h
    simp at h'
  exact ⟨by simp [hpattern, hresult], by simp [hpattern], h, _, _, _, _, aligned, "stop",
    List.mem_singleton.mpr rfl, by decide +kernel, by decide +kernel⟩

theorem stuck_substitution_atomic_division :
    ∃ ys, StuckAt blocks [⟨"< =", "<="⟩, division] twoEnds 1 division ys ∧
      substituteInPlace? blocks [⟨"< =", "<="⟩, division] twoEnds =
        some (ys, some ⟨.unresolvedToken "stop", ⟨1, 9⟩⟩) ∧
      ys.map Lexeme.text = ["a", "<=", "b", "end", "end", "c", "end", "end"] := by
  have hstuck : StuckAt blocks [⟨"< =", "<="⟩, division] twoEnds 1 division _ :=
    ⟨rfl, by decide +kernel, rfl, stuck_division (by decide +kernel)⟩
  obtain ⟨-, hatomic⟩ := stuck_substitution_atomic blocks [⟨"< =", "<="⟩, division] twoEnds
  obtain ⟨-, f, -, -, hf, hrun⟩ := hatomic 1 division _ hstuck
  have hplace : (substitute blocks [⟨"< =", "<="⟩, division] twoEnds).fault =
      some ⟨.unresolvedToken "stop", ⟨1, 9⟩⟩ := by decide +kernel
  cases hf.symm.trans hplace
  exact ⟨_, hstuck, hrun, by decide +kernel⟩

end Descent.Lexing
