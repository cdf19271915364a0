import Descent.Text.Lines

/-!
Unified lines, character by character. A carriage return goes if a newline follows it, a newline
goes if nothing follows it, and everything else stays.
-/
namespace Descent.Text

variable {c : Char} {text rest : List Char} {pieces : List (List Char)}

/-- The lines that stand in the pieces between newlines. -/
def linesOf (pieces : List (List Char)) : List (List Char) :=
  pieces.dropLast.map dropReturn ++ (pieces.getLast?.filter (!·.isEmpty)).toList

theorem linesOf_singleton (line : List Char) :
    linesOf [line] = if line = [] then [] else [line] := by
  cases line <;> rfl

theorem linesOf_cons (line : List Char) (h : pieces ≠ []) :
    linesOf (line :: pieces) = dropReturn line :: linesOf pieces := by
  obtain ⟨next, others, rfl⟩ := List.exists_cons_of_ne_nil h
  rfl

theorem unifyLines_eq (h : text.splitOn '\n' = pieces) :
    unifyLines text = ['\n'].intercalate (linesOf pieces) := by
  subst h
  rfl

theorem splitOn_newline (rest : List Char) :
    ('\n' :: rest).splitOn '\n' = [] :: rest.splitOn '\n' := by
  rw [List.splitOn_cons_eq_if_modifyHead, if_pos (by simp)]

theorem splitOn_cons (hc : c ≠ '\n') (rest : List Char) :
    (c :: rest).splitOn '\n' = (rest.splitOn '\n').modifyHead (c :: ·) := by
  rw [List.splitOn_cons_eq_if_modifyHead, if_neg (by simpa using hc)]

@[simp] theorem unifyLines_nil : unifyLines [] = [] := rfl

@[simp] theorem unifyLines_last : unifyLines ['\n'] = [] := rfl

theorem unifyLines_newline (h : rest ≠ []) :
    unifyLines ('\n' :: rest) = '\n' :: unifyLines rest := by
  have hpieces : linesOf (rest.splitOn '\n') ≠ [] := by
    obtain ⟨line, others, hs⟩ := List.exists_cons_of_ne_nil (List.splitOn_ne_nil '\n' rest)
    cases others with
    | nil =>
      have hrest : ['\n'].intercalate (rest.splitOn '\n') = rest := List.intercalate_splitOn '\n'
      rw [hs, List.intercalate_singleton] at hrest
      rw [hs, hrest, linesOf_singleton, if_neg h]
      exact List.cons_ne_nil _ _
    | cons next others =>
      rw [hs, linesOf_cons _ (List.cons_ne_nil _ _)]
      exact List.cons_ne_nil _ _
  rw [unifyLines_eq (splitOn_newline rest), linesOf_cons [] (List.splitOn_ne_nil '\n' rest),
    List.intercalate_cons_of_ne_nil hpieces]
  rfl

theorem unifyLines_return_newline (rest : List Char) :
    unifyLines ('\r' :: '\n' :: rest) = unifyLines ('\n' :: rest) := by
  have hs : ('\r' :: '\n' :: rest).splitOn '\n' = ['\r'] :: rest.splitOn '\n' := by
    rw [splitOn_cons (by decide), splitOn_newline]
    rfl
  have hne := List.splitOn_ne_nil '\n' rest
  rw [unifyLines_eq hs, unifyLines_eq (splitOn_newline rest), linesOf_cons _ hne,
    linesOf_cons _ hne]
  rfl

/-- What stands before a newline stays, unless it is a carriage return by itself. -/
theorem dropReturn_cons {line : List Char} (h : line = [] → c ≠ '\r') :
    dropReturn (c :: line) = c :: dropReturn line := by
  cases line with
  | nil =>
    have hc := h rfl
    simp [dropReturn, hc]
  | cons d line =>
    unfold dropReturn
    rw [List.getLast?_cons_cons]
    split <;> rfl

theorem unifyLines_cons (hc : c ≠ '\n') (hr : c = '\r' → rest.head? ≠ some '\n') :
    unifyLines (c :: rest) = c :: unifyLines rest := by
  obtain ⟨line, others, hs⟩ := List.exists_cons_of_ne_nil (List.splitOn_ne_nil '\n' rest)
  have hpieces := splitOn_cons hc rest
  rw [hs, List.modifyHead_cons] at hpieces
  rw [unifyLines_eq hpieces, unifyLines_eq hs]
  cases others with
  | nil =>
    rw [linesOf_singleton, linesOf_singleton, if_neg (List.cons_ne_nil c line)]
    cases line <;> rfl
  | cons next others =>
    have hne := List.cons_ne_nil next others
    have hdrop : line = [] → c ≠ '\r' := by
      rintro rfl hreturn
      have hrest : ['\n'].intercalate (rest.splitOn '\n') = rest := List.intercalate_splitOn '\n'
      rw [hs, List.intercalate_cons_of_ne_nil hne] at hrest
      exact hr hreturn (hrest ▸ rfl)
    rw [linesOf_cons _ hne, linesOf_cons _ hne, dropReturn_cons hdrop]
    cases linesOf (next :: others) with
    | nil => rfl
    | cons => rfl

end Descent.Text
