import Descent.Text.Lines
import Descent.Text.Position
import Mathlib.Data.List.Infix
import Mathlib.Data.List.Induction

/-!
Places and lines. The place that is reached over a text tells the line by its number, and by its
column how much of that line has been passed.
-/
namespace Descent.Text

variable {p q : Position} {c : Char} {text rest pre mid : List Char}

namespace Position

/-- Places come in the order of their lines, those of one line in the order of their columns. -/
instance : LE Position := ⟨fun p q => p.line < q.line ∨ p.line = q.line ∧ p.column ≤ q.column⟩

instance : LT Position := ⟨fun p q => p.line < q.line ∨ p.line = q.line ∧ p.column < q.column⟩

theorem le_def : p ≤ q ↔ p.line < q.line ∨ p.line = q.line ∧ p.column ≤ q.column := Iff.rfl

theorem lt_def : p < q ↔ p.line < q.line ∨ p.line = q.line ∧ p.column < q.column := Iff.rfl

theorem le_refl (p : Position) : p ≤ p := Or.inr ⟨rfl, Nat.le_refl _⟩

theorem le_trans {r : Position} (h : p ≤ q) (h' : q ≤ r) : p ≤ r := by
  rw [le_def] at *
  omega

theorem le_of_lt (h : p < q) : p ≤ q := by
  rw [lt_def] at h
  rw [le_def]
  omega

theorem lt_of_lt_of_le {r : Position} (h : p < q) (h' : q ≤ r) : p < r := by
  rw [lt_def] at *
  rw [le_def] at h'
  omega

theorem lt_advance (p : Position) (c : Char) : p < p.advance c := by
  rw [lt_def, advance]
  split
  · exact Or.inl (Nat.lt_succ_self _)
  · exact Or.inr ⟨rfl, Nat.lt_succ_self _⟩

/-- The place that is reached from another one through a text. -/
def through (p : Position) (text : List Char) : Position := text.foldl advance p

@[simp] theorem through_nil (p : Position) : p.through [] = p := rfl

@[simp] theorem through_cons (p : Position) (c : Char) (text : List Char) :
    p.through (c :: text) = (p.advance c).through text := rfl

@[simp] theorem through_append (p : Position) (text rest : List Char) :
    p.through (text ++ rest) = (p.through text).through rest := List.foldl_append

theorem after_eq_through (text : List Char) : after text = start.through text := rfl

/-- On one line only the column moves. -/
theorem through_of_not_mem (h : '\n' ∉ text) :
    p.through text = ⟨p.line, p.column + text.length⟩ := by
  induction text generalizing p with
  | nil => rfl
  | cons c text ih =>
    obtain ⟨hc, ht⟩ := List.ne_and_not_mem_of_not_mem_cons h
    have ha : p.advance c = ⟨p.line, p.column + 1⟩ := if_neg (Ne.symm hc)
    rw [through_cons, ha, ih ht, List.length_cons, Nat.add_right_comm, Nat.add_assoc]

/-- The place after a text, counted: the newlines in it, and the characters since the last of
them. -/
def counted (text : List Char) : Position :=
  ⟨text.count '\n' + 1, (text.reverse.takeWhile (· ≠ '\n')).length + 1⟩

theorem after_eq_counted (text : List Char) : after text = counted text := by
  induction text using List.reverseRecOn with
  | nil => rfl
  | append_singleton text c ih =>
    rw [after_eq_through] at ih ⊢
    rw [through_append, ih, through_cons, through_nil]
    by_cases hc : c = '\n'
    · subst hc
      simp [counted, advance]
    · simp [counted, advance, hc]

end Position

theorem splitOn_append_of_not_mem (h : '\n' ∉ mid) :
    (mid ++ rest).splitOn '\n' = (rest.splitOn '\n').modifyHead (mid ++ ·) := by
  induction mid with
  | nil => exact (congrFun List.modifyHead_id _).symm
  | cons c mid ih =>
    obtain ⟨hc, ht⟩ := List.ne_and_not_mem_of_not_mem_cons h
    have hne : ¬ (c == '\n') = true := by simpa using Ne.symm hc
    rw [List.cons_append, List.splitOn_cons_eq_if_modifyHead, if_neg hne, ih ht,
      List.modifyHead_modifyHead]
    rfl

/-- Past a front the lines go on as those of the rest, the first of them with what the front has of
that line. -/
theorem drop_splitOn_after (pre rest : List Char) :
    1 ≤ (Position.after pre).line ∧ ∃ before, before.length + 1 = (Position.after pre).column ∧
      ((pre ++ rest).splitOn '\n').drop ((Position.after pre).line - 1) =
        (rest.splitOn '\n').modifyHead (before ++ ·) := by
  induction pre using List.reverseRecOn generalizing rest with
  | nil => exact ⟨Nat.le_refl _, [], rfl, (congrFun List.modifyHead_id _).symm⟩
  | append_singleton pre c ih =>
    obtain ⟨hline, before, hcolumn, hdrop⟩ := ih (c :: rest)
    rw [Position.after_eq_through] at hline hcolumn hdrop
    simp only [Position.after_eq_through, Position.through_append, Position.through_cons,
      Position.through_nil, List.append_assoc, List.singleton_append]
    by_cases hc : c = '\n'
    · subst hc
      have ha (p : Position) : p.advance '\n' = ⟨p.line + 1, 1⟩ := rfl
      refine ⟨by simp [ha], [], by simp [ha], ?_⟩
      rw [List.splitOn_cons_eq_if_modifyHead, if_pos (by simp)] at hdrop
      have htail := congrArg (List.drop 1) hdrop
      rw [List.drop_drop, Nat.sub_add_cancel hline] at htail
      rw [ha, Nat.add_sub_cancel, htail]
      exact (congrFun List.modifyHead_id _).symm
    · have ha (p : Position) : p.advance c = ⟨p.line, p.column + 1⟩ := if_neg hc
      refine ⟨by simpa [ha] using hline, before ++ [c], by simp [ha, hcolumn], ?_⟩
      rw [ha, hdrop, List.splitOn_cons_eq_if_modifyHead, if_neg (by simpa using hc),
        List.modifyHead_modifyHead]
      simp [Function.comp_def]

/-- A piece of text within a line stands where its place says. -/
theorem exists_line_of_append (h : '\n' ∉ mid) (hp : Position.after pre = p) (rest : List Char) :
    1 ≤ p.line ∧ 1 ≤ p.column ∧
      ∃ line, ((pre ++ (mid ++ rest)).splitOn '\n')[p.line - 1]? = some line ∧
        p.column - 1 + mid.length ≤ line.length ∧
        (line.drop (p.column - 1)).take mid.length = mid := by
  subst hp
  obtain ⟨hline, before, hcolumn, hdrop⟩ := drop_splitOn_after pre (mid ++ rest)
  obtain ⟨last, others, hrest⟩ := List.exists_cons_of_ne_nil (List.splitOn_ne_nil '\n' rest)
  rw [splitOn_append_of_not_mem h, hrest, List.modifyHead_cons, List.modifyHead_cons] at hdrop
  have hget := congrArg List.head? hdrop
  rw [List.head?_drop, List.head?_cons] at hget
  have hbefore : (Position.after pre).column - 1 = before.length := by omega
  refine ⟨hline, by omega, _, hget, ?_, ?_⟩
  · simp only [hbefore, List.length_append]
    omega
  · rw [hbefore, List.drop_left, List.take_left]

theorem not_mem_of_mem_splitOn {mark : Char} {piece : List Char} (h : piece ∈ text.splitOn mark) :
    mark ∉ piece := by
  induction text generalizing piece with
  | nil => simp_all
  | cons c text ih =>
    rw [List.splitOn_cons_eq_if_modifyHead] at h
    split at h
    · rcases List.mem_cons.mp h with rfl | h
      · exact List.not_mem_nil
      · exact ih h
    · rename_i hc
      obtain ⟨first, others, he⟩ := List.exists_cons_of_ne_nil (List.splitOn_ne_nil mark text)
      rw [he, List.modifyHead_cons] at h
      rw [he] at ih
      rcases List.mem_cons.mp h with rfl | h
      · have hf := ih List.mem_cons_self
        exact List.not_mem_cons_of_ne_of_not_mem (Ne.symm (by simpa using hc)) hf
      · exact ih (List.mem_cons_of_mem _ h)

theorem not_mem_of_mem_lines {line : List Char} (h : line ∈ lines text) : '\n' ∉ line := by
  unfold lines at h
  rcases List.mem_append.mp h with h | h
  · obtain ⟨piece, hp, rfl⟩ := List.mem_map.mp h
    have hpiece := not_mem_of_mem_splitOn (List.mem_of_mem_dropLast hp)
    unfold dropReturn
    split
    · exact fun hm => hpiece (List.mem_of_mem_dropLast hm)
    · exact hpiece
  · obtain ⟨hlast, -⟩ := Option.filter_eq_some_iff.mp (Option.mem_toList.mp h)
    exact not_mem_of_mem_splitOn (List.mem_of_getLast? hlast)

/-- Endings apart a text has the lines that it is made of anew. -/
theorem splitOn_unifyLines (h : lines text ≠ []) : (unifyLines text).splitOn '\n' = lines text :=
  List.splitOn_intercalate '\n' (fun _ => not_mem_of_mem_lines) h

theorem lines_ne_nil (h : unifyLines text ≠ []) : lines text ≠ [] := by
  intro he
  rw [unifyLines, he] at h
  exact h rfl

end Descent.Text
