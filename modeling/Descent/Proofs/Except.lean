import Mathlib.Data.List.Forall2

/-! When computations that can fail come to a result: in sequence, over a list. -/
namespace Descent

variable {ε α β : Type} {x : Except ε α} {b : β}

theorem bind_eq_ok_iff {f : α → Except ε β} : x >>= f = .ok b ↔ ∃ a, x = .ok a ∧ f a = .ok b := by
  cases x <;> simp [bind, Except.bind]

theorem map_eq_ok_iff {f : α → β} : x.map f = .ok b ↔ ∃ a, x = .ok a ∧ f a = b := by
  cases x <;> simp [Except.map]

theorem map_eq_error_iff {f : α → β} {e : ε} : x.map f = .error e ↔ x = .error e := by
  cases x <;> simp [Except.map]

theorem mapM_eq_ok_iff {f : α → Except ε β} {xs : List α} {ys : List β} :
    xs.mapM f = .ok ys ↔ List.Forall₂ (fun x y => f x = .ok y) xs ys := by
  induction xs generalizing ys with
  | nil => cases ys <;> simp [pure, Except.pure]
  | cons x xs ih =>
    rw [List.mapM_cons, bind_eq_ok_iff]
    constructor
    · rintro ⟨y, hy, h⟩
      obtain ⟨ys', hys, h⟩ := bind_eq_ok_iff.mp h
      cases h
      exact .cons hy (ih.mp hys)
    · rintro (_ | ⟨hy, hys⟩)
      exact ⟨_, hy, bind_eq_ok_iff.mpr ⟨_, ih.mpr hys, rfl⟩⟩

/-- A list fails at the first of its members that does. -/
theorem mapM_eq_error_iff {f : α → Except ε β} {xs : List α} {e : ε} :
    xs.mapM f = .error e ↔ ∃ pre x post, xs = pre ++ x :: post ∧
      (∀ y ∈ pre, ∃ b, f y = .ok b) ∧ f x = .error e := by
  induction xs with
  | nil => simp [pure, Except.pure]
  | cons x xs ih =>
    rw [List.mapM_cons]
    cases hx : f x with
    | error e' =>
      constructor
      · intro h
        cases h
        exact ⟨[], x, xs, rfl, List.forall_mem_nil _, hx⟩
      · rintro ⟨pre, y, post, he, hpre, hy⟩
        cases pre with
        | nil =>
          cases he
          cases hx.symm.trans hy
          rfl
        | cons z pre =>
          cases he
          obtain ⟨b, hb⟩ := hpre x List.mem_cons_self
          cases hx.symm.trans hb
    | ok y =>
      have hrest : (do let ys ← xs.mapM f; pure (y :: ys)) = Except.error e ↔
          xs.mapM f = .error e := by
        cases xs.mapM f <;> simp [bind, Except.bind, pure, Except.pure]
      refine hrest.trans (ih.trans ⟨?_, ?_⟩)
      · rintro ⟨pre, z, post, rfl, hpre, hz⟩
        refine ⟨x :: pre, z, post, rfl, ?_, hz⟩
        exact List.forall_mem_cons.mpr ⟨⟨y, hx⟩, hpre⟩
      · rintro ⟨pre, z, post, he, hpre, hz⟩
        cases pre with
        | nil =>
          cases he
          cases hx.symm.trans hz
        | cons w pre =>
          cases he
          exact ⟨pre, z, post, rfl, fun v hv => hpre v (List.mem_cons_of_mem x hv), hz⟩

theorem exists_of_mapM_eq_error {f : α → Except ε β} {xs : List α} {e : ε}
    (h : xs.mapM f = .error e) : ∃ x ∈ xs, f x = .error e := by
  obtain ⟨pre, x, post, rfl, -, hx⟩ := mapM_eq_error_iff.mp h
  exact ⟨x, List.mem_append_right pre List.mem_cons_self, hx⟩

theorem exists_of_mem_forall₂ {R : α → β → Prop} {xs : List α} {ys : List β}
    (h : List.Forall₂ R xs ys) (hb : b ∈ ys) : ∃ a ∈ xs, R a b := by
  induction h with
  | nil => cases hb
  | @cons a c xs ys hac _ ih =>
    rcases List.mem_cons.mp hb with rfl | hb
    · exact ⟨a, List.mem_cons_self, hac⟩
    · obtain ⟨a', ha', hr⟩ := ih hb
      exact ⟨a', List.mem_cons_of_mem a ha', hr⟩

/-- Every member is related to something exactly if a whole list is. -/
theorem exists_forall₂_iff {R : α → β → Prop} {xs : List α} :
    (∃ ys, List.Forall₂ R xs ys) ↔ ∀ x ∈ xs, ∃ y, R x y := by
  induction xs with
  | nil => simp
  | cons x xs ih =>
    simp only [List.forall₂_cons_left_iff, List.mem_cons, forall_eq_or_imp, ← ih]
    grind

/-- Two computations that both fail or both come to a result, related in either case. -/
inductive Concur {ε ε' α β : Type} (E : ε → ε' → Prop) (R : α → β → Prop) :
    Except ε α → Except ε' β → Prop
  | error {e e'} (h : E e e') : Concur E R (.error e) (.error e')
  | ok {a b} (h : R a b) : Concur E R (.ok a) (.ok b)

section Concur

variable {ε' γ δ : Type} {E : ε → ε' → Prop} {R : α → β → Prop} {S : γ → δ → Prop}

theorem Concur.map {f : α → γ} {g : β → δ} {y : Except ε' β} (h : Concur E R x y)
    (hfg : ∀ a b, R a b → S (f a) (g b)) : Concur E S (x.map f) (y.map g) := by
  cases h with
  | error h => exact .error h
  | ok h => exact .ok (hfg _ _ h)

theorem Concur.bind {f : α → Except ε γ} {g : β → Except ε' δ} {y : Except ε' β}
    (h : Concur E R x y) (hfg : ∀ a b, R a b → Concur E S (f a) (g b)) :
    Concur E S (x >>= f) (y >>= g) := by
  cases h with
  | error h => exact .error h
  | ok h => exact hfg _ _ h

theorem Concur.exists_right {a : α} {y : Except ε' β} (h : Concur E R (.ok a) y) :
    ∃ b, y = .ok b ∧ R a b := by
  cases h with
  | ok h => exact ⟨_, rfl, h⟩

theorem Concur.exists_left {b : β} {y : Except ε α} (h : Concur E R y (.ok b : Except ε' β)) :
    ∃ a, y = .ok a ∧ R a b := by
  cases h with
  | ok h => exact ⟨_, rfl, h⟩

theorem concur_mapM {τ : Type} {f : τ → Except ε α} {g : τ → Except ε' β}
    (h : ∀ t, Concur E R (f t) (g t)) (ts : List τ) :
    Concur E (List.Forall₂ R) (ts.mapM f) (ts.mapM g) := by
  induction ts with
  | nil => exact .ok .nil
  | cons t ts ih =>
    rw [List.mapM_cons, List.mapM_cons]
    have ht := h t
    generalize f t = a, g t = b at ht
    cases ht with
    | error ht => exact .error ht
    | ok ht => exact ih.map fun _ _ hs => List.Forall₂.cons ht hs

end Concur

end Descent
