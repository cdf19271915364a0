import Descent.Text.Blank
import Descent.Text.Number

/-! Blanks stand apart from the characters of words and numerals. -/
namespace Descent.Text

variable {ranges : List (Nat × Nat)} {n : Nat} {c : Char}

/-- The code points in a list of ranges. -/
def codePoints (ranges : List (Nat × Nat)) : List Nat :=
  ranges.flatMap fun r => List.range' r.1 (r.2 + 1 - r.1)

theorem mem_codePoints_of_covers (h : covers ranges n = true) : n ∈ codePoints ranges := by
  induction ranges with
  | nil => cases h
  | cons r rest ih =>
    rw [codePoints, List.flatMap_cons, List.mem_append]
    unfold covers at h
    split at h
    · cases h
    · split at h
      · left
        rw [List.mem_range'_1]
        omega
      · exact Or.inr (ih h)

theorem isWordChar_of_isBlank (h : isBlank c = true) : isWordChar c = false := by
  have hall : ∀ n ∈ codePoints blankRanges,
      (covers letterRanges n || covers numberRanges n) = false := by decide +kernel
  exact hall _ (mem_codePoints_of_covers h)

theorem not_isBlank_of_isWordChar (h : isWordChar c = true) : isBlank c = false := by
  cases hb : isBlank c with
  | false => rfl
  | true => exact Bool.noConfusion ((isWordChar_of_isBlank hb).symm.trans h)

theorem isWordChar_of_isLetter (h : isLetter c = true) : isWordChar c = true := by
  rw [isWordChar, h, Bool.true_or]

theorem isWordChar_of_isDigit (h : c.isDigit = true) : isWordChar c = true := by
  obtain ⟨hlow, hhigh⟩ : 48 ≤ c.toNat ∧ c.toNat ≤ 57 := by
    simp only [Char.isDigit, Bool.and_eq_true, decide_eq_true_eq] at h
    exact h
  have hn : isNumber c = true := by
    rw [isNumber, numberRanges, covers, if_neg (by omega), if_pos hhigh]
  rw [isWordChar, hn, Bool.or_true]

end Descent.Text
