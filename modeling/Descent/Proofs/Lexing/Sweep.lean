import Descent.Proofs.Lexing.Openings
import Descent.Proofs.Text.Bytes

/-!
Comments in one walk. Whoever goes over a text from left to right, and blanks a comment as soon as
one begins, comes to what the two phases come to, of which the first finds all comments.
-/
namespace Descent.Lexing

open Text (Position occurrence? isBlank)

variable {styles : List CommentStyle} {style : CommentStyle} {c : Char}
  {text rest passed pre mid : List Char} {comments : List Extent} {e : Extent} {i k offset : Nat}

/-- The style that is listed first among those that begin a comment at the front of the text. -/
def styleAt? (styles : List CommentStyle) (text : List Char) : Option CommentStyle :=
  styles.find? fun style => !style.opening.isEmpty && style.opening.toList.isPrefixOf text

/-- The first place after the front of the text at which the closing delimiter stands. -/
def closingAt? (style : CommentStyle) (text : List Char) : Option Nat :=
  (List.range' 1 text.length).find? fun i => style.closing.toList.isPrefixOf (text.drop i)

theorem closingAt?_pos (h : closingAt? style text = some i) : 0 < i := by
  obtain ⟨-, hi, -⟩ := List.find?_range'_eq_some.mp h
  exact (List.mem_range'_1.mp hi).1

/-- How many characters a comment takes whose closing delimiter stands at `i`. It ends no earlier
than its opening delimiter. -/
def commentSize (style : CommentStyle) (i : Nat) : Nat :=
  max (i + style.closing.length) style.opening.length

/-- The text with a space for every character that shows. -/
def blankAll (text : List Char) : List Char := text.map fun c => if isBlank c then c else ' '

/-- Goes over the text that comes after `passed`. Where a comment begins, it is blanked as a whole,
and the walk goes on after it; any other character is copied. -/
def sweep (styles : List CommentStyle) (passed text : List Char) : Except Fault (List Char) :=
  match text with
  | [] => .ok []
  | c :: rest =>
    match styleAt? styles (c :: rest) with
    | none => (sweep styles (passed ++ [c]) rest).map (c :: ·)
    | some style =>
      match _h : closingAt? style (c :: rest) with
      | none => .error ⟨.unterminatedComment, .counted passed⟩
      | some i =>
        let comment := (c :: rest).take (commentSize style i)
        (sweep styles (passed ++ comment) ((c :: rest).drop (commentSize style i))).map
          (blankAll comment ++ ·)
termination_by text.length
decreasing_by
  · simp
  · have := closingAt?_pos _h
    simp only [List.length_drop, List.length_cons, commentSize]
    omega

theorem styleAt?_cons (style : CommentStyle) (styles : List CommentStyle) (text : List Char) :
    styleAt? (style :: styles) text =
      if !style.opening.isEmpty && style.opening.toList.isPrefixOf text then some style
      else styleAt? styles text := by
  rw [styleAt?, List.find?_cons]
  split
  · rename_i h
    rw [if_pos h]
  · rename_i h
    rw [if_neg (by simp [h])]
    rfl

theorem openingOf?_cons (style : CommentStyle) (c : Char) (rest : List Char) :
    openingOf? style (c :: rest) =
      if !style.opening.isEmpty && style.opening.toList.isPrefixOf (c :: rest) then some (0, style)
      else (openingOf? style rest).map fun a => (a.1 + 1, a.2) := by
  by_cases he : style.opening.isEmpty = true
  · simp [openingOf?, he]
  · by_cases hp : style.opening.toList.isPrefixOf (c :: rest) = true
    · simp [openingOf?, occurrence?, he, hp]
    · simp [openingOf?, occurrence?, he, hp, Function.comp_def]

/-- What is found first of a style and of others. -/
def earlier (a b : Option (Nat × CommentStyle)) : Option (Nat × CommentStyle) :=
  match a, b with
  | some a, some b => if b.1 < a.1 then some b else some a
  | some a, none => some a
  | none, other => other

theorem opening?_eq_earlier (style : CommentStyle) (styles : List CommentStyle) (text : List Char) :
    opening? (style :: styles) text = earlier (openingOf? style text) (opening? styles text) := rfl

theorem openingOf?_nil (style : CommentStyle) : openingOf? style [] = none := by
  by_cases he : style.opening = "" <;> simp [openingOf?, occurrence?, he]

theorem opening?_nil (styles : List CommentStyle) : opening? styles [] = none := by
  induction styles with
  | nil => rfl
  | cons style styles ih => rw [opening?_eq_earlier, openingOf?_nil, ih, earlier]

/-- The first opening is at the front of the text or else the first one in the rest. -/
theorem opening?_cons_char (styles : List CommentStyle) (c : Char) (rest : List Char) :
    opening? styles (c :: rest) =
      match styleAt? styles (c :: rest) with
      | some style => some (0, style)
      | none => (opening? styles rest).map fun a => (a.1 + 1, a.2) := by
  induction styles with
  | nil => rfl
  | cons style styles ih =>
    rw [opening?_eq_earlier, opening?_eq_earlier, openingOf?_cons, styleAt?_cons, ih]
    by_cases hs : (!style.opening.isEmpty && style.opening.toList.isPrefixOf (c :: rest)) = true
    · rw [if_pos hs, if_pos hs]
      generalize (match styleAt? styles (c :: rest) with | some _ => _ | none => _) = there
      cases there <;> simp [earlier]
    · rw [if_neg hs, if_neg hs]
      cases styleAt? styles (c :: rest) with
      | some other => cases openingOf? style rest <;> simp [earlier]
      | none =>
        cases openingOf? style rest with
        | none => rfl
        | some a =>
          cases opening? styles rest with
          | none => rfl
          | some b => by_cases hab : b.1 < a.1 <;> simp [earlier, hab]

/-- A character at which no comment begins takes no part in any. -/
theorem extents_copied (h : styleAt? styles (c :: rest) = none) (k : Nat) :
    extents styles k (c :: rest) = extents styles (k + 1) rest := by
  rw [extents, opening?_cons_char, h]
  cases rest with
  | nil =>
    rw [opening?_nil, extents]
    rfl
  | cons d rest =>
    rw [extents]
    cases opening? styles (d :: rest) with
    | none => rfl
    | some a =>
      obtain ⟨skip, style⟩ := a
      have hplace : k + (skip + 1) = k + 1 + skip := by omega
      simp only [Option.map_some, List.drop_succ_cons, hplace]
      cases commentTail? style ((d :: rest).drop skip) with
      | none => rfl
      | some tail =>
        have hlater : (d :: rest).drop (skip + 1 + tail) = rest.drop (skip + tail) := by
          rw [Nat.add_right_comm, List.drop_succ_cons]
        simp only [hlater]

theorem closingAt?_cons (style : CommentStyle) (c : Char) (rest : List Char) :
    closingAt? style (c :: rest) = (occurrence? style.closing.toList rest).map (· + 1) := by
  rw [closingAt?, List.length_cons, List.range'_eq_map_range, List.find?_map,
    Text.occurrence?_eq_find?]
  refine congrArg₂ Option.map (funext fun i => Nat.add_comm 1 i) ?_
  refine congrArg (List.find? · _) (funext fun i => ?_)
  rw [Function.comp_apply, Nat.add_comm, List.drop_succ_cons]

theorem commentTail?_cons (style : CommentStyle) (c : Char) (rest : List Char) :
    commentTail? style (c :: rest) =
      (closingAt? style (c :: rest)).map fun i => commentSize style i - 1 := by
  rw [commentTail?, closingAt?_cons, Option.map_map, List.drop_one, List.tail_cons]
  refine congrArg (Option.map · _) (funext fun offset => ?_)
  rw [Function.comp_apply, commentSize]
  omega

theorem extents_unclosed (hs : styleAt? styles (c :: rest) = some style)
    (hi : closingAt? style (c :: rest) = none) (k : Nat) :
    extents styles k (c :: rest) = .error k := by
  rw [extents, opening?_cons_char, hs]
  simp only [List.drop_zero]
  rw [commentTail?_cons, hi]
  rfl

theorem extents_comment (hs : styleAt? styles (c :: rest) = some style)
    (hi : closingAt? style (c :: rest) = some i) (k : Nat) :
    extents styles k (c :: rest) =
      (extents styles (k + commentSize style i) ((c :: rest).drop (commentSize style i))).map
        (⟨k, k + commentSize style i⟩ :: ·) := by
  obtain ⟨n, hn⟩ : ∃ n, commentSize style i = n + 1 := by
    have := closingAt?_pos hi
    exact ⟨commentSize style i - 1, by rw [commentSize]; omega⟩
  rw [extents, opening?_cons_char, hs]
  simp only [List.drop_zero]
  rw [commentTail?_cons, hi, Option.map_some]
  simp only [hn, Nat.add_sub_cancel, Nat.zero_add, Nat.add_zero, List.drop_succ_cons,
    Nat.add_assoc]

theorem prefix_of_styleAt? (h : styleAt? styles text = some style) :
    style.opening.isEmpty = false ∧ style.opening.toList <+: text := by
  have hs := List.find?_some h
  simpa using hs

theorem prefix_of_closingAt? (h : closingAt? style text = some i) :
    i ≤ text.length ∧ style.closing.toList <+: text.drop i := by
  obtain ⟨hp, hi, -⟩ := List.find?_range'_eq_some.mp h
  have hlt := (List.mem_range'_1.mp hi).2
  exact ⟨by omega, List.isPrefixOf_iff_prefix.mp hp⟩

/-- A comment lies in the text. -/
theorem commentSize_le (hs : styleAt? styles text = some style)
    (hi : closingAt? style text = some i) : commentSize style i ≤ text.length := by
  obtain ⟨-, hopening⟩ := prefix_of_styleAt? hs
  obtain ⟨hlt, hclosing⟩ := prefix_of_closingAt? hi
  have ho := hopening.length_le
  have hc := hclosing.length_le
  rw [String.length_toList] at ho hc
  rw [List.length_drop] at hc
  rw [commentSize]
  omega

theorem length_append_comment (passed : List Char) (hs : styleAt? styles text = some style)
    (hi : closingAt? style text = some i) :
    (passed ++ text.take (commentSize style i)).length = passed.length + commentSize style i := by
  rw [List.length_append, List.length_take_of_le (commentSize_le hs hi)]

theorem le_start_of_extents (h : extents styles offset text = .ok comments) :
    ∀ e ∈ comments, offset ≤ e.start := by
  fun_induction extents styles offset text generalizing comments with
  | case1 | case2 =>
    cases h
    simp
  | case3 => cases h
  | case4 offset c rest skip style _ tail _ =>
    rename_i stop ih
    obtain ⟨later, hlater, rfl⟩ := map_eq_ok_iff.mp h
    intro e he
    rcases List.mem_cons.mp he with rfl | he
    · exact Nat.le_add_right offset skip
    · have := ih hlater e he
      omega

/-- The second phase for a text that begins at `k`. -/
def blankFrom (comments : List Extent) (k : Nat) (text : List Char) : List Char :=
  text.mapIdx fun i c => if comments.any (·.contains (k + i)) && !isBlank c then ' ' else c

theorem blankOut_eq_blankFrom (comments : List Extent) (text : List Char) :
    blankOut comments text = blankFrom comments 0 text := by
  simp [blankOut, blankFrom]

theorem blankFrom_append (comments : List Extent) (k : Nat) (text rest : List Char) :
    blankFrom comments k (text ++ rest) =
      blankFrom comments k text ++ blankFrom comments (k + text.length) rest := by
  rw [blankFrom, List.mapIdx_append]
  simp only [Nat.add_comm _ text.length, ← Nat.add_assoc]
  rfl

theorem blankFrom_before (h : ∀ e ∈ comments, k < e.start) :
    blankFrom comments k [c] = [c] := by
  have hout : comments.any (·.contains k) = false := by
    rw [List.any_eq_false]
    intro e he
    have := h e he
    simp [Extent.contains]
    omega
  simp only [blankFrom, List.mapIdx_cons, List.mapIdx_nil, Nat.add_zero, hout]
  rfl

theorem blankFrom_inside (h : ∀ i < text.length, e.contains (k + i) = true) :
    blankFrom (e :: comments) k text = blankAll text := by
  refine List.ext_getElem (by simp [blankFrom, blankAll]) fun i hi _ => ?_
  have hlt : i < text.length := by simpa [blankFrom] using hi
  simp only [blankFrom, blankAll, List.getElem_mapIdx, List.getElem_map, List.any_cons, h i hlt]
  cases isBlank text[i] <;> simp

theorem blankFrom_past (h : e.stop ≤ k) (comments : List Extent) (text : List Char) :
    blankFrom (e :: comments) k text = blankFrom comments k text := by
  have hout (i : Nat) : e.contains (k + i) = false := by
    simp [Extent.contains]
    omega
  simp only [blankFrom, List.any_cons, hout, Bool.false_or]

theorem blankFrom_comment {size : Nat} (h : size ≤ text.length) (k : Nat)
    (later : List Extent) : blankFrom (⟨k, k + size⟩ :: later) k text =
      blankAll (text.take size) ++ blankFrom later (k + size) (text.drop size) := by
  have hsize := List.length_take_of_le h
  conv => lhs; rw [← List.take_append_drop size text]
  rw [blankFrom_append, hsize, blankFrom_past (Nat.le_refl _), blankFrom_inside]
  intro i hi
  rw [hsize] at hi
  simp [Extent.contains, hi]

/-- Where the first phase comes to its end, so does the walk, with the text that the second phase
makes. -/
theorem sweep_of_extents (h : extents styles passed.length text = .ok comments) :
    sweep styles passed text = .ok (blankFrom comments passed.length text) := by
  fun_induction sweep styles passed text generalizing comments with
  | case1 => rfl
  | case2 passed c rest hs ih =>
    rw [extents_copied hs] at h
    have hstart : ∀ e ∈ comments, passed.length < e.start := le_start_of_extents h
    have hlen : (passed ++ [c]).length = passed.length + 1 := List.length_append
    rw [ih (hlen ▸ h), hlen]
    have hsplit := blankFrom_append comments passed.length [c] rest
    rw [blankFrom_before hstart] at hsplit
    exact congrArg Except.ok hsplit.symm
  | case3 passed c rest style hs hi =>
    rw [extents_unclosed hs hi] at h
    cases h
  | case4 passed c rest style hs i hi =>
    rename_i comment ih
    rw [extents_comment hs hi] at h
    obtain ⟨later, hlater, rfl⟩ := map_eq_ok_iff.mp h
    have hlen := length_append_comment passed hs hi
    rw [ih (hlen ▸ hlater), hlen]
    exact congrArg Except.ok (blankFrom_comment (commentSize_le hs hi) _ later).symm

theorem sweep_of_unclosed (h : extents styles passed.length text = .error k) :
    sweep styles passed text =
      .error ⟨.unterminatedComment, .counted ((passed ++ text).take k)⟩ := by
  fun_induction sweep styles passed text with
  | case1 =>
    rw [extents] at h
    cases h
  | case2 passed c rest hs ih =>
    rw [extents_copied hs] at h
    have hlen : (passed ++ [c]).length = passed.length + 1 := List.length_append
    rw [ih (hlen ▸ h), List.append_assoc, List.singleton_append]
    rfl
  | case3 passed c rest style hs hi =>
    rw [extents_unclosed hs hi] at h
    cases h
    rw [List.take_left]
  | case4 passed c rest style hs i hi =>
    rename_i comment ih
    rw [extents_comment hs hi] at h
    have hlen := length_append_comment passed hs hi
    rw [ih (hlen ▸ map_eq_error_iff.mp h), List.append_assoc, List.take_append_drop]
    rfl

theorem stripComments_eq_sweep (styles : List CommentStyle) (text : List Char) :
    stripComments styles text = sweep styles [] text := by
  unfold stripComments
  split
  · rename_i comments h
    have hwalk : sweep styles [] text = .ok (blankFrom comments 0 text) := sweep_of_extents h
    rw [hwalk, blankOut_eq_blankFrom]
  · rename_i start h
    have hwalk : sweep styles [] text =
        .error ⟨.unterminatedComment, .counted (text.take start)⟩ := sweep_of_unclosed h
    rw [hwalk, Position.after_eq_counted]

end Descent.Lexing
