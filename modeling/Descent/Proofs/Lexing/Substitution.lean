import Descent.Proofs.Except
import Descent.Proofs.Lexing.Steps

/-!
Substitutions look at the texts of lexemes and at nothing else. What holds of the lexemes and of
whatever is inserted holds of all that comes out, and lists with the same texts are treated alike,
however else their lexemes differ.
-/
namespace Descent.Lexing

open Lexicon (SameTerminals)
open Text (Position)

variable {l l' : Lexicon} {q : String} {qs : List String} {s : Splice} {x y : Lexeme}
  {xs ys : List Lexeme}

section Invariants

variable {P : Lexeme → Prop}

theorem forall_apply (hi : ∀ token ∈ s.inserted, ∀ place x, insert l place token = .ok x → P x)
    (hx : ∀ x ∈ xs, P x) (h : s.apply l xs = .ok ys) : ∀ y ∈ ys, P y := by
  obtain ⟨inserted, hm, rfl⟩ := map_eq_ok_iff.mp h
  intro y hy
  rcases List.mem_append.mp hy with hy | hy
  · rcases List.mem_append.mp hy with hy | hy
    · exact hx y (List.mem_of_mem_take hy)
    · obtain ⟨token, hmem, ht⟩ := exists_of_mem_forall₂ (mapM_eq_ok_iff.mp hm) hy
      exact hi token hmem _ y ht
  · exact hx y (List.mem_of_mem_drop hy)

theorem forall_replaceAll
    (hi : ∀ token ∈ s.inserted, ∀ place x, insert l place token = .ok x → P x)
    (hx : ∀ x ∈ xs, P x) : ∀ y ∈ (replaceAll l q qs s xs).lexemes, P y := by
  fun_induction replaceAll l q qs s xs with
  | case1 | case2 => exact hx
  | case3 x xs _ new ha ih =>
    have htake : ∀ y ∈ x :: xs.take qs.length, P y := by
      intro y hy
      rcases List.mem_cons.mp hy with rfl | hy
      · exact hx y List.mem_cons_self
      · exact hx y (List.mem_cons_of_mem x (List.mem_of_mem_take hy))
    intro y hy
    rcases List.mem_append.mp hy with hy | hy
    · exact forall_apply hi htake ha y hy
    · exact ih (fun z hz => hx z (List.mem_cons_of_mem x (List.mem_of_mem_drop hz))) y hy
  | case4 x xs _ ih =>
    intro y hy
    rcases List.mem_cons.mp hy with rfl | hy
    · exact hx y List.mem_cons_self
    · exact ih (fun z hz => hx z (List.mem_cons_of_mem x hz)) y hy

/-- What is inserted comes from the result. -/
theorem mem_of_mem_inserted {pattern result : List String} {token : String}
    (h : token ∈ (Splice.between pattern result).inserted) : token ∈ result :=
  List.mem_of_mem_take (List.mem_of_mem_drop h)

theorem forall_runs {rules : List Substitution} {o : Option Fault}
    (hi : ∀ t ∈ rules, ∀ token ∈ t.result, ∀ place x, insert l place token = .ok x → P x)
    (h : Runs l rules xs ys o) (hx : ∀ x ∈ xs, P x) : ∀ y ∈ ys, P y := by
  induction h with
  | nil => exact hx
  | skipped _ _ ih => exact ih (List.forall_mem_cons.mp hi).2 hx
  | stopped _ _ hr =>
    obtain ⟨ht, -⟩ := List.forall_mem_cons.mp hi
    exact hr ▸ forall_replaceAll (fun token hm => ht token (mem_of_mem_inserted hm)) hx
  | passed _ _ hr _ _ ih =>
    obtain ⟨ht, hts⟩ := List.forall_mem_cons.mp hi
    exact ih hts (hr ▸ forall_replaceAll (fun token hm => ht token (mem_of_mem_inserted hm)) hx)

theorem forall_substitute (rules : List Substitution)
    (hi : ∀ t ∈ rules, ∀ token ∈ t.result, ∀ place x, insert l place token = .ok x → P x)
    (hx : ∀ x ∈ xs, P x) : ∀ y ∈ (substitute l rules xs).lexemes, P y :=
  forall_runs hi (runs_substitute l rules xs) hx

end Invariants

/-- The fault is about a token that is neither a word nor a separator. -/
def Fault.Unresolved (f : Fault) : Prop := ∃ token, f.cause = .unresolvedToken token

variable {f : Fault}

theorem unresolved_apply (h : s.apply l xs = .error f) : f.Unresolved := by
  obtain ⟨token, -, ht⟩ := exists_of_mapM_eq_error (map_eq_error_iff.mp h)
  obtain ⟨-, rfl⟩ := insert_eq_error_iff.mp ht
  exact ⟨token, rfl⟩

theorem unresolved_replaceAll (h : (replaceAll l q qs s xs).fault = some f) : f.Unresolved := by
  fun_induction replaceAll l q qs s xs with
  | case1 => cases h
  | case2 x xs _ e ha =>
    cases h
    exact unresolved_apply ha
  | case3 x xs _ new _ ih | case4 x xs _ ih => exact ih h

theorem unresolved_runs {rules : List Substitution} {o : Option Fault}
    (h : Runs l rules xs ys o) : ∀ f ∈ o, f.Unresolved := by
  induction h with
  | nil => simp
  | skipped _ _ ih | passed _ _ _ _ _ ih => exact ih
  | stopped _ _ hr hf =>
    intro f ho
    cases ho
    exact unresolved_replaceAll (hr ▸ hf)

theorem unresolved_substitute (rules : List Substitution)
    (h : (substitute l rules xs).fault = some f) : f.Unresolved :=
  unresolved_runs (runs_substitute l rules xs) f h

/-- A relation between lexemes of the same text that holds of what is inserted at related places. -/
structure Comparable (R : Lexeme → Lexeme → Prop) (P : Position → Position → Prop) : Prop where
  text {x y : Lexeme} (h : R x y) : x.text = y.text
  first {x y : Lexeme} (h : R x y) : P x.first y.first
  start : P .start .start
  pinned {p q : Position} (h : P p q) (category : Category) (i : Nat) (token : String) :
    R (.pinned category i token p) (.pinned category i token q)

/-- Faults of one cause at related places. -/
structure SameCause (P : Position → Position → Prop) (f f' : Fault) : Prop where
  cause : f.cause = f'.cause
  place : P f.place f'.place

/-- The outcomes of one substitution on two lists. -/
structure Replaced.Concur (R : Lexeme → Lexeme → Prop) (P : Position → Position → Prop)
    (r r' : Replaced) : Prop where
  lexemes : List.Forall₂ R r.lexemes r'.lexemes
  count : r.count = r'.count
  fault : Option.Rel (SameCause P) r.fault r'.fault

variable {R : Lexeme → Lexeme → Prop} {P : Position → Position → Prop}

/-- Lists of the same views. -/
theorem forall₂_view_iff {α : Type} {view : Lexeme → α} :
    List.Forall₂ (fun x y => view x = view y) xs ys ↔ xs.map view = ys.map view := by
  rw [← List.forall₂_eq_eq_eq, List.forall₂_map_left_iff, List.forall₂_map_right_iff]

theorem concur_insert (hR : Comparable R P) (hl : SameTerminals l l') {p q : Position} (h : P p q)
    (token : String) : Concur (SameCause P) R (insert l p token) (insert l' q token) := by
  rw [insert, insert, hl.terminal?]
  split
  · exact .ok (hR.pinned h _ _ token)
  · exact .error ⟨rfl, h⟩

theorem concur_origin (hR : Comparable R P) (s : Splice) (h : List.Forall₂ R xs ys) :
    P (s.origin xs) (s.origin ys) := by
  have hlength := h.length_eq
  unfold Splice.origin
  rw [hlength]
  generalize ys.length - s.back - 1 = i
  by_cases hi : i < ys.length
  · have hx : xs[i]? = some (xs.get ⟨i, hlength ▸ hi⟩) := List.getElem?_eq_getElem _
    have hy : ys[i]? = some (ys.get ⟨i, hi⟩) := List.getElem?_eq_getElem hi
    rw [hx, hy]
    exact hR.first (h.get _ hi)
  · rw [List.getElem?_eq_none (by omega), List.getElem?_eq_none (by omega)]
    exact hR.start

theorem concur_apply (hR : Comparable R P) (hl : SameTerminals l l') (s : Splice)
    (h : List.Forall₂ R xs ys) :
    Concur (SameCause P) (List.Forall₂ R) (s.apply l xs) (s.apply l' ys) := by
  unfold Splice.apply
  rw [h.length_eq]
  refine (concur_mapM (concur_insert hR hl (concur_origin hR s h)) s.inserted).map ?_
  intro us vs hu
  exact List.rel_append (List.rel_append (List.forall₂_take _ h) hu) (List.forall₂_drop _ h)

theorem map_text_eq (hR : Comparable R P) (h : List.Forall₂ R xs ys) :
    xs.map Lexeme.text = ys.map Lexeme.text := by
  induction h with
  | nil => rfl
  | cons hx _ ih => rw [List.map_cons, List.map_cons, hR.text hx, ih]

theorem matches_iff (hR : Comparable R P) (hx : R x y) (h : List.Forall₂ R xs ys) :
    (x.text = q ∧ (xs.take qs.length).map Lexeme.text = qs) ↔
      y.text = q ∧ (ys.take qs.length).map Lexeme.text = qs := by
  rw [hR.text hx, map_text_eq hR (List.forall₂_take _ h)]

theorem concur_replaceAll (hR : Comparable R P) (hl : SameTerminals l l') (q : String)
    (qs : List String) (s : Splice) (h : List.Forall₂ R xs ys) :
    (replaceAll l q qs s xs).Concur R P (replaceAll l' q qs s ys) := by
  fun_induction replaceAll l q qs s xs generalizing ys with
  | case1 =>
    cases h
    rw [replaceAll_nil]
    exact ⟨.nil, rfl, .none⟩
  | case2 x xs hm f ha =>
    obtain ⟨y, ys, hx, hxs, rfl⟩ := List.forall₂_cons_left_iff.mp h
    have hc := concur_apply hR hl s (.cons hx (List.forall₂_take qs.length hxs))
    generalize hb : s.apply l' _ = b at hc
    rw [ha] at hc
    cases hc with
    | error hf =>
      rw [replaceAll_failed ((matches_iff hR hx hxs).mp hm) hb]
      exact ⟨h, rfl, .some hf⟩
  | case3 x xs hm new ha ih =>
    obtain ⟨y, ys, hx, hxs, rfl⟩ := List.forall₂_cons_left_iff.mp h
    have hc := concur_apply hR hl s (.cons hx (List.forall₂_take qs.length hxs))
    generalize hb : s.apply l' _ = b at hc
    rw [ha] at hc
    cases hc with
    | ok hn =>
      rw [replaceAll_replaced ((matches_iff hR hx hxs).mp hm) hb]
      have hr := ih (List.forall₂_drop qs.length hxs)
      exact ⟨List.rel_append hn hr.lexemes, congrArg (· + 1) hr.count, hr.fault⟩
  | case4 x xs hm ih =>
    obtain ⟨y, ys, hx, hxs, rfl⟩ := List.forall₂_cons_left_iff.mp h
    rw [replaceAll_kept (mt (matches_iff hR hx hxs).mpr hm)]
    have hr := ih hxs
    exact ⟨.cons hx hr.lexemes, hr.count, hr.fault⟩

theorem concur_substitute (hR : Comparable R P) (hl : SameTerminals l l')
    (rules : List Substitution) (h : List.Forall₂ R xs ys) :
    List.Forall₂ R (substitute l rules xs).lexemes (substitute l' rules ys).lexemes ∧
      Option.Rel (SameCause P) (substitute l rules xs).fault (substitute l' rules ys).fault := by
  induction rules generalizing xs ys with
  | nil => exact ⟨h, .none⟩
  | cons s rest ih =>
    unfold substitute
    split
    · exact ih h
    · split
      · exact ih h
      · rename_i q qs _
        have hr := concur_replaceAll hR hl q qs (.between (q :: qs) s.result) h
        have hi := ih hr.lexemes
        have hf := hr.fault
        dsimp only
        rw [hr.count]
        generalize (replaceAll l q qs _ xs).fault = o, (replaceAll l' q qs _ ys).fault = o' at hf
        cases hf with
        | some hf => exact ⟨hr.lexemes, .some hf⟩
        | none =>
          dsimp only
          split <;> exact hi

end Descent.Lexing
