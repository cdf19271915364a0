import Descent.Proofs.Lexing.Layout
import Descent.Proofs.Lexing.Substitution

/-!
Lexemes come in the order of their places. A scan yields them so, each past the one before. A
substitution may lay several at one place, that of a lexeme which it has found, and so never one
before a lexeme that comes earlier in the list.
-/
namespace Descent.Lexing

open Text (Position isBlank)

variable {l l' : Lexicon} {p : Position} {c : Char} {rest rest' text : List Char} {x : Lexeme}
  {xs ys : List Lexeme}

/-- Lexemes that begin one after another or at one place, none of which ends before it begins. -/
structure Orderly (xs : List Lexeme) : Prop where
  columns : ∀ x ∈ xs, x.firstColumn ≤ x.lastColumn
  sorted : xs.Pairwise fun x y => x.first ≤ y.first

theorem first_le_of_getElem? {i j : Nat} {y : Lexeme}
    (h : xs.Pairwise fun x y => x.first ≤ y.first) (hij : i ≤ j) (hi : xs[i]? = some x)
    (hj : xs[j]? = some y) : x.first ≤ y.first := by
  obtain ⟨hi, rfl⟩ := List.getElem?_eq_some_iff.mp hi
  obtain ⟨hj, rfl⟩ := List.getElem?_eq_some_iff.mp hj
  rcases Nat.eq_or_lt_of_le hij with rfl | hlt
  · exact Position.le_refl _
  · exact List.pairwise_iff_getElem.mp h i j _ _ hlt

theorem StandsAt.columns (h : StandsAt x p) : x.firstColumn ≤ x.lastColumn := by
  have hlt := h.lt_next
  rw [← h.first, Position.lt_def] at hlt
  exact Nat.le_of_lt_succ (hlt.resolve_left (Nat.lt_irrefl _)).2

/-- A token that is read stands at its place. -/
theorem standsAt_of_readToken (hb : isBlank c = false)
    (h : readToken l p c rest = .token x l' rest') : StandsAt x p := by
  cases readToken_cases h with
  | word hc | identifier hc =>
    have hw := isWholeWord_takeWhile hc rest
    exact standsAt_spanning hw.ne_nil hw.visible
  | number hc hd hn =>
    have hproper := (longest_of_read hd hn).1
    exact standsAt_spanning hproper.text_ne_nil fun _ => hproper.not_isBlank_of_mem
  | separator => exact standsAt_spanning (List.cons_ne_nil _ _) (by simpa using hb)

/-- No lexeme of a scan, one that a fault has stopped among them, begins before the text does. -/
theorem le_first_of_mem_scan (l : Lexicon) (p : Position) (text : List Char) :
    ∀ x ∈ (scan l p text).lexemes, p ≤ x.first := by
  fun_induction scan l p text with
  | case1 => exact List.forall_mem_nil _
  | case2 l p c rest _ ih =>
    intro x hx
    exact Position.le_trans (Position.le_of_lt (Position.lt_advance p c)) (ih x hx)
  | case3 => exact List.forall_mem_nil _
  | case4 l p c rest hb y l' rest' h ih =>
    have hy := standsAt_of_readToken (by simpa using hb) h
    refine List.forall_mem_cons.mpr ⟨hy.first ▸ Position.le_refl _, fun x hx => ?_⟩
    exact Position.le_trans (Position.le_of_lt hy.lt_next) (ih x hx)

theorem orderly_scan (l : Lexicon) (p : Position) (text : List Char) :
    Orderly (scan l p text).lexemes := by
  fun_induction scan l p text with
  | case1 => exact ⟨List.forall_mem_nil _, .nil⟩
  | case2 l p c rest _ ih => exact ih
  | case3 => exact ⟨List.forall_mem_nil _, .nil⟩
  | case4 l p c rest hb y l' rest' h ih =>
    have hy := standsAt_of_readToken (by simpa using hb) h
    refine ⟨List.forall_mem_cons.mpr ⟨hy.columns, ih.columns⟩, .cons (fun x hx => ?_) ih.sorted⟩
    have hlt := hy.lt_next
    rw [← hy.first] at hlt
    exact Position.le_trans (Position.le_of_lt hlt) (le_first_of_mem_scan l' _ _ x hx)

section Substitution

variable {q : String} {qs : List String} {s : Splice} {token : String}

theorem pinned_of_insert (h : insert l p token = .ok x) :
    x.first = p ∧ x.firstColumn ≤ x.lastColumn := by
  obtain ⟨category, i, -, rfl⟩ := insert_eq_ok_iff.mp h
  exact ⟨rfl, Nat.le_refl _⟩

theorem commonPrefix_le (as bs : List String) :
    commonPrefix as bs ≤ as.length ∧ commonPrefix as bs ≤ bs.length := by
  fun_induction commonPrefix as bs with
  | case1 a as bs ih =>
    simp only [List.length_cons]
    omega
  | case2 | case3 => exact ⟨Nat.zero_le _, Nat.zero_le _⟩

/-- What is kept in front and at the back overlaps neither in the pattern nor in the result. -/
theorem between_le (pattern result : List String) :
    (Splice.between pattern result).front + (Splice.between pattern result).back ≤
      min pattern.length result.length := by
  obtain ⟨hp, hr⟩ := commonPrefix_le pattern result
  unfold Splice.between
  dsimp only
  omega

theorem kept_le (pattern result : List String) :
    (Splice.between pattern result).front + (Splice.between pattern result).back ≤
      pattern.length :=
  (between_le pattern result).trans (Nat.min_le_left _ _)

/-- The lexeme at whose place the new ones are laid: the last before those kept at the back. -/
theorem exists_origin (hne : xs ≠ []) :
    ∃ x, xs[xs.length - s.back - 1]? = some x ∧ s.origin xs = x.first := by
  have hlt : xs.length - s.back - 1 < xs.length := by
    have := List.length_pos_iff.mpr hne
    omega
  refine ⟨_, List.getElem?_eq_getElem hlt, ?_⟩
  rw [Splice.origin, List.getElem?_eq_getElem hlt]
  rfl

/-- A new lexeme begins where one begins that was found. -/
theorem exists_first_of_apply (hne : xs ≠ []) (h : s.apply l xs = .ok ys) :
    ∀ y ∈ ys, ∃ x ∈ xs, y.first = x.first := by
  obtain ⟨inserted, hm, rfl⟩ := map_eq_ok_iff.mp h
  intro y hy
  rcases List.mem_append.mp hy with hy | hy
  · rcases List.mem_append.mp hy with hy | hy
    · exact ⟨y, List.mem_of_mem_take hy, rfl⟩
    · obtain ⟨token, -, ht⟩ := exists_of_mem_forall₂ (mapM_eq_ok_iff.mp hm) hy
      obtain ⟨x, hx, ho⟩ := exists_origin (s := s) hne
      exact ⟨x, List.mem_of_getElem? hx, (pinned_of_insert ht).1.trans ho⟩
  · exact ⟨y, List.mem_of_mem_drop hy, rfl⟩

theorem sorted_apply (hs : s.front + s.back ≤ xs.length) (hne : xs ≠ [])
    (hx : xs.Pairwise fun x y => x.first ≤ y.first) (h : s.apply l xs = .ok ys) :
    ys.Pairwise fun x y => x.first ≤ y.first := by
  obtain ⟨inserted, hm, rfl⟩ := map_eq_ok_iff.mp h
  obtain ⟨o, ho, horigin⟩ := exists_origin (s := s) hne
  have hinserted : ∀ y ∈ inserted, y.first = o.first := by
    intro y hy
    obtain ⟨token, -, ht⟩ := exists_of_mem_forall₂ (mapM_eq_ok_iff.mp hm) hy
    exact (pinned_of_insert ht).1.trans horigin
  have hfront : ∀ x ∈ xs.take s.front, x.first ≤ o.first := by
    intro x hm
    obtain ⟨i, hi, rfl⟩ := List.mem_take_iff_getElem.mp hm
    exact first_le_of_getElem? hx (by omega) (List.getElem?_eq_getElem _) ho
  have hback : ∀ x ∈ xs.drop (xs.length - s.back), o.first ≤ x.first := by
    intro x hm
    obtain ⟨i, hi, rfl⟩ := List.mem_drop_iff_getElem.mp hm
    exact first_le_of_getElem? hx (by omega) ho (List.getElem?_eq_getElem _)
  rw [List.append_assoc, List.pairwise_append, List.pairwise_append]
  refine ⟨hx.sublist (List.take_sublist _ _),
    ⟨?_, hx.sublist (List.drop_sublist _ _), fun y hy z hz => ?_⟩, fun x hm y hy => ?_⟩
  · refine List.pairwise_of_forall_mem_list fun y hy z hz => ?_
    rw [hinserted y hy, hinserted z hz]
    exact Position.le_refl _
  · exact hinserted y hy ▸ hback z hz
  · rcases List.mem_append.mp hy with hy | hy
    · exact hinserted y hy ▸ hfront x hm
    · exact Position.le_trans (hfront x hm) (hback y hy)

/-- A match is as long as its pattern. -/
theorem length_of_matches (h : (xs.take qs.length).map Lexeme.text = qs) :
    (x :: xs.take qs.length).length = qs.length + 1 := by
  have hlen := congrArg List.length h
  rw [List.length_map] at hlen
  rw [List.length_cons, hlen]

theorem exists_first_of_replaceAll (l : Lexicon) (q : String) (qs : List String) (s : Splice)
    (xs : List Lexeme) :
    ∀ y ∈ (replaceAll l q qs s xs).lexemes, ∃ x ∈ xs, y.first = x.first := by
  fun_induction replaceAll l q qs s xs with
  | case1 | case2 => exact fun y hy => ⟨y, hy, rfl⟩
  | case3 x xs _ new ha ih =>
    intro y hy
    rcases List.mem_append.mp hy with hy | hy
    · obtain ⟨z, hz, he⟩ := exists_first_of_apply (List.cons_ne_nil x _) ha y hy
      exact ⟨z, (List.cons_subset_cons x (List.take_subset _ xs)) hz, he⟩
    · obtain ⟨z, hz, he⟩ := ih y hy
      exact ⟨z, List.mem_cons_of_mem x (List.mem_of_mem_drop hz), he⟩
  | case4 x xs _ ih =>
    intro y hy
    rcases List.mem_cons.mp hy with rfl | hy
    · exact ⟨y, List.mem_cons_self, rfl⟩
    · obtain ⟨z, hz, he⟩ := ih y hy
      exact ⟨z, List.mem_cons_of_mem x hz, he⟩

theorem sorted_replaceAll (hs : s.front + s.back ≤ qs.length + 1)
    (hx : xs.Pairwise fun x y => x.first ≤ y.first) :
    (replaceAll l q qs s xs).lexemes.Pairwise fun x y => x.first ≤ y.first := by
  fun_induction replaceAll l q qs s xs with
  | case1 | case2 => exact hx
  | case3 x xs hm new ha ih =>
    rw [← List.take_append_drop qs.length xs, ← List.cons_append, List.pairwise_append] at hx
    obtain ⟨hfound, hrest, hbetween⟩ := hx
    have hnew := sorted_apply (hs.trans_eq (length_of_matches hm.2).symm) (List.cons_ne_nil _ _)
      hfound ha
    refine List.pairwise_append.mpr ⟨hnew, ih hrest, fun y hy z hz => ?_⟩
    obtain ⟨y', hy', hye⟩ := exists_first_of_apply (List.cons_ne_nil x _) ha y hy
    obtain ⟨z', hz', hze⟩ := exists_first_of_replaceAll l q qs s _ z hz
    rw [hye, hze]
    exact hbetween y' hy' z' hz'
  | case4 x xs _ ih =>
    obtain ⟨hhead, hrest⟩ := List.pairwise_cons.mp hx
    refine .cons (fun y hy => ?_) (ih hrest)
    obtain ⟨z, hz, he⟩ := exists_first_of_replaceAll l q qs s xs y hy
    exact he ▸ hhead z hz

theorem orderly_replaceAll (result : List String) (hx : Orderly xs) :
    Orderly (replaceAll l q qs (.between (q :: qs) result) xs).lexemes where
  columns := forall_replaceAll (fun _ _ _ _ h => (pinned_of_insert h).2) hx.columns
  sorted := sorted_replaceAll (kept_le (q :: qs) result) hx.sorted

theorem orderly_runs {rules : List Substitution} {o : Option Fault} (h : Runs l rules xs ys o)
    (hx : Orderly xs) : Orderly ys := by
  induction h with
  | nil => exact hx
  | skipped _ _ ih => exact ih hx
  | stopped _ _ hr => exact hr ▸ orderly_replaceAll _ hx
  | passed _ _ hr _ _ ih => exact ih (hr ▸ orderly_replaceAll _ hx)

theorem orderly_substitute (l : Lexicon) (rules : List Substitution) (hx : Orderly xs) :
    Orderly (substitute l rules xs).lexemes :=
  orderly_runs (runs_substitute l rules xs) hx

end Substitution

/-- Whatever stops it, a lexical analysis leaves its lexemes in order. -/
theorem orderly_tokenize (rules : LexicalRules) (l : Lexicon) (source : String) :
    Orderly (tokenize rules l source).lexemes := by
  have hc := tokenize_cases rules l source
  generalize (tokenize rules l source).lexemes = xs, (tokenize rules l source).lexicon = m,
    (tokenize rules l source).fault = o at hc ⊢
  cases hc with
  | unclosed => exact ⟨nofun, .nil⟩
  | stopped _ hs => exact hs ▸ orderly_scan l .start _
  | scanned _ hs => exact orderly_substitute _ _ (hs ▸ orderly_scan l .start _)

end Descent.Lexing
