import Descent.Grammar.Compile
import Descent.Proofs.Except
import Descent.Proofs.Grammar.Sequences

/-! What compilation guarantees of a grammar. -/
namespace Descent.Grammar

variable {lexicon : Lexicon} {text : GrammarText} {g : Grammar} {s : Scope}

theorem Scope.bodies_of_item {token : String} {i : Item} (h : s.item token = .ok i) :
    i.bodies = [] := by
  unfold Scope.item at h
  repeat' split at h
  all_goals cases h
  all_goals rfl

/-- The items of a list of tokens are as few as none only if the tokens are, and so are the bodies
of their repetitions. -/
theorem Scope.ne_nil_of_items {tokens : List String} {is : List Item}
    (h : s.items tokens = .ok is) :
    (tokens ≠ [] → is ≠ []) ∧ ∀ body ∈ bodies is, body ≠ [] := by
  fun_induction Scope.items s tokens generalizing is with
  | case1 =>
    cases h
    simp
  | case2 | case3 | case5 => cases h
  | case4 rest inner after _ he ihi iha =>
    obtain ⟨body, hb, h⟩ := bind_eq_ok_iff.mp h
    obtain ⟨others, ho, h⟩ := bind_eq_ok_iff.mp h
    cases h
    obtain ⟨hne, hbodies⟩ := ihi hb
    refine ⟨fun _ => List.cons_ne_nil _ _, fun b hm => ?_⟩
    simp only [bodies_many, List.cons_append, List.mem_cons, List.mem_append] at hm
    rcases hm with rfl | hm | hm
    · exact hne (by simpa using he)
    · exact hbodies b hm
    · exact (iha ho).2 b hm
  | case6 token rest _ _ ih =>
    obtain ⟨first, hf, h⟩ := bind_eq_ok_iff.mp h
    obtain ⟨others, ho, h⟩ := bind_eq_ok_iff.mp h
    cases h
    refine ⟨fun _ => List.cons_ne_nil _ _, fun b hm => ?_⟩
    rw [bodies, Scope.bodies_of_item hf] at hm
    exact (ih ho).2 b hm

theorem rules_of_compile (h : compile lexicon text = .ok g) :
    text.rules.mapM (compileRule (text.rules.map fun r => Text.trim r.name) lexicon) =
      .ok g.rules := by
  unfold compile at h
  dsimp only at h
  split at h
  · cases h
  · obtain ⟨rules, hr, h⟩ := bind_eq_ok_iff.mp h
    split at h
    · cases h
      exact hr
    · cases h

/-- No variant and no body of a repetition is empty. -/
theorem ne_nil_of_compile (h : compile lexicon text = .ok g) {items : List Item}
    (hi : items ∈ g.sequences) : items ≠ [] := by
  obtain ⟨v, hv, hi⟩ := List.mem_flatMap.mp hi
  obtain ⟨r, hr, hv⟩ := List.mem_flatMap.mp hv
  obtain ⟨t, _, hc⟩ := exists_of_mem_forall₂ (mapM_eq_ok_iff.mp (rules_of_compile h)) hr
  obtain ⟨vs, hvs, rfl⟩ := map_eq_ok_iff.mp hc
  obtain ⟨body, _, hb⟩ := exists_of_mem_forall₂ (mapM_eq_ok_iff.mp hvs) hv
  unfold Scope.variant at hb
  dsimp only at hb
  split at hb
  · cases hb
  · rename_i ht
    obtain ⟨is, his, rfl⟩ := map_eq_ok_iff.mp hb
    obtain ⟨hne, hbodies⟩ := Scope.ne_nil_of_items his
    rcases List.mem_cons.mp hi with rfl | hi
    · exact hne (by simpa using ht)
    · exact hbodies items hi

end Descent.Grammar
