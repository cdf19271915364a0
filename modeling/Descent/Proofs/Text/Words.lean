import Descent.Text.Words
import Mathlib.Data.List.DropRight

/-! Words and the blanks between them. -/
namespace Descent.Text

variable {c : Char} {text word : List Char}

theorem flatten_words (text : List Char) : (words text).flatten = text.filter (!isBlank ·) := by
  rw [words, List.flatten_filter_not_isEmpty]
  induction text with
  | nil => rfl
  | cons c text ih =>
    rw [List.splitOnP_cons_eq_if_modifyHead]
    by_cases hc : isBlank c = true
    · simpa [hc] using ih
    · obtain ⟨first, others, he⟩ := List.exists_cons_of_ne_nil (List.splitOnP_ne_nil isBlank text)
      rw [he] at ih
      simpa [hc, he] using ih

theorem not_isBlank_of_mem_words (h : word ∈ words text) (hc : c ∈ word) : isBlank c = false := by
  have hmem : c ∈ (words text).flatten := List.mem_flatten.mpr ⟨word, h, hc⟩
  rw [flatten_words] at hmem
  simpa using (List.mem_filter.mp hmem).2

theorem not_isBlank_of_mem_splitWords {s token : String} (h : token ∈ splitWords s)
    (hc : c ∈ token.toList) : isBlank c = false := by
  obtain ⟨word, hword, rfl⟩ := List.mem_map.mp h
  rw [String.toList_ofList] at hc
  exact not_isBlank_of_mem_words hword hc

theorem words_append_blank (hc : isBlank c = true) (pre post : List Char) :
    words (pre ++ c :: post) = words pre ++ words post := by
  rw [words, words, words, List.splitOnP_append_cons pre post hc, List.filter_append]

theorem words_of_visible (hne : text ≠ []) (hv : ∀ c ∈ text, isBlank c = false) :
    words text = [text] := by
  rw [words, List.splitOnP_eq_singleton hv]
  simpa using hne

/-- A trimmed text has no blank at either end, so there is nothing left to trim. -/
theorem trim_trim (text : String) : trim (trim text) = trim text := by
  have htrim (t : String) :
      trim t = String.ofList ((t.toList.dropWhile isBlank).rdropWhile isBlank) := rfl
  rw [htrim (trim text), htrim text, String.toList_ofList]
  generalize hfront : text.toList.dropWhile isBlank = front
  have hpre : front.rdropWhile isBlank <+: front := List.rdropWhile_prefix isBlank front
  have hfirst : (front.rdropWhile isBlank).dropWhile isBlank = front.rdropWhile isBlank := by
    rw [List.dropWhile_eq_self_iff]
    intro hlt
    have hlt' : 0 < front.length := Nat.lt_of_lt_of_le hlt hpre.length_le
    have hvisible : ¬ isBlank front[0] := by
      apply List.dropWhile_eq_self_iff.mp _ hlt'
      rw [← hfront]
      exact List.dropWhile_idempotent isBlank _
    rwa [hpre.getElem hlt]
  rw [hfirst, List.rdropWhile_idempotent]

end Descent.Text
