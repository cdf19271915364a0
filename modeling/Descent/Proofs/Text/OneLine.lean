import Descent.Proofs.Text.Lines
import Descent.Proofs.Text.Places
import Descent.Text.Blank
import Descent.Text.Escaped

/-!
Texts on one line: those with no newline in them. Numbers are such texts, so are quoted characters
and whatever holds no blank. Texts on one line, each ended by a newline, come out as so many lines.
-/
namespace Descent.Text

/-- The text has no newline in it. -/
def OneLine (s : String) : Prop := '\n' ∉ s.toList

instance (s : String) : Decidable (OneLine s) := inferInstanceAs (Decidable ('\n' ∉ s.toList))

variable {s t : String} {c : Char} {line : List Char} {rows : List (List Char)}

@[simp] theorem oneLine_append : OneLine (s ++ t) ↔ OneLine s ∧ OneLine t := by
  simp [OneLine]

theorem oneLine_ofList : OneLine (String.ofList line) ↔ '\n' ∉ line := by
  simp [OneLine]

theorem oneLine_of_visible (h : ∀ c ∈ s.toList, isBlank c = false) : OneLine s := by
  intro hm
  exact absurd (h '\n' hm) (by decide)

theorem oneLine_intercalate {ts : List String} (hs : OneLine s) (ht : ∀ t ∈ ts, OneLine t) :
    OneLine (s.intercalate ts) := by
  induction ts with
  | nil => exact List.not_mem_nil
  | cons t ts ih =>
    obtain ⟨hfirst, hothers⟩ := List.forall_mem_cons.mp ht
    cases ts with
    | nil => simpa using hfirst
    | cons u us =>
      simp only [String.intercalate_cons_cons, oneLine_append]
      exact ⟨⟨hfirst, hs⟩, ih hothers⟩

theorem ne_newline_of_mem_toDigits {b n : Nat} (hb : 1 < b) (h : c ∈ Nat.toDigits b n) :
    c ≠ '\n' := by
  induction n using Nat.strongRecOn with
  | ind n ih =>
    rw [Nat.toDigits_eq_if hb] at h
    split at h
    · obtain rfl := List.mem_singleton.mp h
      simp
    · rename_i hn
      rcases List.mem_append.mp h with h | h
      · exact ih (n / b) (Nat.div_lt_self (by omega) hb) h
      · obtain rfl := List.mem_singleton.mp h
        simp

@[simp] theorem oneLine_toString (n : Nat) : OneLine (toString n) := by
  have hn : toString n = String.ofList (Nat.toDigits 10 n) := rfl
  rw [hn, oneLine_ofList]
  intro h
  exact ne_newline_of_mem_toDigits (by decide) h rfl

@[simp] theorem oneLine_hex (n : Nat) : OneLine (hex n) := by
  rw [hex, oneLine_ofList]
  intro h
  exact ne_newline_of_mem_toDigits (by decide) h rfl

/-- Whatever the character, its quotation stays on one line. -/
theorem oneLine_escape (c : Char) : OneLine (escape c) := by
  unfold escape
  split_ifs with h0 ht hr hn hq hv
  · decide
  · decide
  · decide
  · decide
  · rw [oneLine_ofList]
    intro h
    simp only [List.mem_cons, List.not_mem_nil, or_false] at h
    rcases h with h | h
    · exact absurd h (by decide)
    · exact hn h.symm
  · have htext : c.toString.toList = [c] := by simp
    intro h
    rw [htext] at h
    exact hn (List.mem_singleton.mp h).symm
  · simp only [oneLine_append]
    exact ⟨⟨by decide, oneLine_hex _⟩, by decide⟩

theorem lines_append_newline (h : '\n' ∉ line) (rest : List Char) :
    lines (line ++ '\n' :: rest) = dropReturn line :: lines rest := by
  have hs : (line ++ '\n' :: rest).splitOn '\n' = line :: rest.splitOn '\n' := by
    rw [splitOn_append_of_not_mem h, splitOn_newline, List.modifyHead_cons, List.append_nil]
  change linesOf _ = dropReturn line :: linesOf _
  rw [hs]
  exact linesOf_cons line (List.splitOn_ne_nil '\n' rest)

/-- Only a carriage return at the end of a row would be lost. -/
theorem lines_of_rows (h : ∀ row ∈ rows, '\n' ∉ row) :
    lines (rows.flatMap (· ++ ['\n'])) = rows.map dropReturn := by
  induction rows with
  | nil => rfl
  | cons row rows ih =>
    obtain ⟨hrow, hrows⟩ := List.forall_mem_cons.mp h
    rw [List.flatMap_cons, List.append_assoc, List.singleton_append, lines_append_newline hrow,
      ih hrows, List.map_cons]

/-- What stands before the last character of a line stays. -/
theorem dropReturn_append (pre : List Char) (hne : line ≠ []) :
    dropReturn (pre ++ line) = pre ++ dropReturn line := by
  induction pre with
  | nil => rfl
  | cons c pre ih =>
    rw [List.cons_append, dropReturn_cons, ih, List.cons_append]
    intro hnil
    exact absurd (List.append_eq_nil_iff.mp hnil).2 hne

end Descent.Text
