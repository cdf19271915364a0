import Descent.Proofs.Lexing.Place
import Descent.Proofs.Lexing.Sweep
import Mathlib.Data.List.MinMax

/-!
Comments by byte offsets. An encoded text is searched from one offset to the next, and each of them
has to be a place at which the text may be cut. The comments found so are those of the text as
characters, and no offset ever misses such a place.
-/
namespace Descent.Lexing

open String (utf8Len)
open Text (Position splitAtByte? byteOccurrence? occurrence? isBlank)

variable {styles : List CommentStyle} {style : CommentStyle} {c : Char}
  {source text rest passed : List Char} {ranges : List Extent} {e : Extent} {i start : Nat}

/-- Where one style first opens a comment in a text that begins at the byte `start`. -/
def byteOpeningOf? (style : CommentStyle) (start : Nat) (text : List Char) :
    Option (Nat × CommentStyle) :=
  if style.opening.isEmpty then none
  else (byteOccurrence? style.opening.toList text).map fun i => (start + i, style)

/-- The leftmost of the places where styles first open a comment; of two styles at one place the one
that is listed first. -/
def byteOpening? (styles : List CommentStyle) (start : Nat) (text : List Char) :
    Option (Nat × CommentStyle) :=
  (styles.filterMap (byteOpeningOf? · start text)).argmin Prod.fst

/-- What a search for the next comment comes to. -/
inductive Sighting where
  | clear
  | unclosed (start : Nat)
  | comment (e : Extent)

/-- The comment that a style opens at a byte. There is no answer if the source cannot be cut at an
offset that is needed for it. -/
def commentAt? (style : CommentStyle) (source : List Char) (opening : Nat) : Option Sighting := do
  let (_, here) ← splitAtByte? source opening
  let search := opening + here.head?.elim 1 Char.utf8Size
  let (_, later) ← splitAtByte? source search
  match byteOccurrence? style.closing.toList later with
  | none => some (.unclosed opening)
  | some i =>
    some (.comment ⟨opening, max (search + i + style.closing.utf8ByteSize)
      (opening + style.opening.utf8ByteSize)⟩)

/-- The next comment from the byte `start` on. -/
def sight? (styles : List CommentStyle) (source : List Char) (start : Nat) : Option Sighting := do
  let (_, text) ← splitAtByte? source start
  match byteOpening? styles start text with
  | none => some .clear
  | some (opening, style) => commentAt? style source opening

theorem le_of_byteOpeningOf? {a : Nat × CommentStyle}
    (h : byteOpeningOf? style start text = some a) : start ≤ a.1 := by
  unfold byteOpeningOf? at h
  split at h
  · cases h
  · obtain ⟨i, -, rfl⟩ := Option.map_eq_some_iff.mp h
    exact Nat.le_add_right start i

theorem le_of_byteOpening? {a : Nat × CommentStyle} (h : byteOpening? styles start text = some a) :
    start ≤ a.1 := by
  obtain ⟨style, -, hs⟩ := List.mem_filterMap.mp (List.argmin_mem h)
  exact le_of_byteOpeningOf? hs

/-- A comment begins within the source and ends later. -/
theorem lt_stop_of_commentAt? (h : commentAt? style source start = some (.comment e)) :
    start < e.stop ∧ start < utf8Len source := by
  obtain ⟨⟨pre, here⟩, -, h⟩ := Option.bind_eq_some_iff.mp h
  obtain ⟨⟨front, later⟩, hlater, h⟩ := Option.bind_eq_some_iff.mp h
  obtain ⟨hsource, hfront⟩ := Text.splitAtByte?_eq_some_iff.mp hlater
  have hlen : utf8Len source = utf8Len front + utf8Len later := by
    rw [hsource, String.utf8Len_append]
  have hpos : 0 < here.head?.elim 1 Char.utf8Size := by
    cases here.head? with
    | none => exact Nat.one_pos
    | some c => exact c.utf8Size_pos
  dsimp only at h hfront
  split at h
  · cases h
  · cases h
    dsimp only
    omega

theorem lt_stop_of_sight? (h : sight? styles source start = some (.comment e)) :
    start < e.stop ∧ start < utf8Len source := by
  obtain ⟨⟨before, text⟩, -, h⟩ := Option.bind_eq_some_iff.mp h
  dsimp only at h
  split at h
  · cases h
  · rename_i opening style ho
    have hle := le_of_byteOpening? ho
    have hlt := lt_stop_of_commentAt? h
    dsimp only at hle
    omega

/-- All comments from the byte `start` on, or the offset of one that is never closed. -/
def byteRanges? (styles : List CommentStyle) (source : List Char) (start : Nat) :
    Option (Except Nat (List Extent)) :=
  match _h : sight? styles source start with
  | none => none
  | some .clear => some (.ok [])
  | some (.unclosed opening) => some (.error opening)
  | some (.comment e) => (byteRanges? styles source e.stop).map (·.map (e :: ·))
termination_by utf8Len source - start
decreasing_by
  have := lt_stop_of_sight? _h
  omega

/-- Blanks what lies in the ranges, which come in order, with a cursor on the next of them. The text
begins at the byte `i`. -/
def blankAlong (ranges : List Extent) (i : Nat) : List Char → List Char
  | [] => []
  | c :: rest =>
    let ranges := ranges.dropWhile (·.stop ≤ i)
    let c' := if ranges.head?.any (·.start ≤ i) && !isBlank c then ' ' else c
    c' :: blankAlong ranges (i + c.utf8Size) rest

/-- The text with its comments blanked, by byte offsets. The place of a comment that is never closed
is counted up to its offset and then cut to 32 bits. -/
def stripBytes? (styles : List CommentStyle) (source : List Char) :
    Option (Except Fault (List Char)) :=
  match byteRanges? styles source 0 with
  | none => none
  | some (.ok ranges) => some (.ok (if ranges.isEmpty then source else blankAlong ranges 0 source))
  | some (.error start) => (splitAtByte? source start).map fun (before, _) =>
      .error ⟨.unterminatedComment, (Position.counted before).narrow.widen⟩

theorem byteOpeningOf?_cons (style : CommentStyle) (start : Nat) (c : Char) (rest : List Char) :
    byteOpeningOf? style start (c :: rest) =
      if !style.opening.isEmpty && style.opening.toList.isPrefixOf (c :: rest) then
        some (start, style)
      else byteOpeningOf? style (start + c.utf8Size) rest := by
  by_cases he : style.opening.isEmpty = true
  · simp [byteOpeningOf?, he]
  · by_cases hp : style.opening.toList.isPrefixOf (c :: rest) = true
    · simp [byteOpeningOf?, byteOccurrence?, he, hp]
    · have hplace (i : Nat) : start + (i + c.utf8Size) = start + c.utf8Size + i := by omega
      simp [byteOpeningOf?, byteOccurrence?, he, hp, Function.comp_def, hplace]

theorem byteOpening?_eq_earlier (style : CommentStyle) (styles : List CommentStyle) (start : Nat)
    (text : List Char) : byteOpening? (style :: styles) start text =
      earlier (byteOpeningOf? style start text) (byteOpening? styles start text) := by
  rw [byteOpening?, List.filterMap_cons]
  cases byteOpeningOf? style start text with
  | none => rfl
  | some a =>
    rw [byteOpening?]
    generalize styles.filterMap (byteOpeningOf? · start text) = others
    dsimp only
    rw [List.argmin_cons]
    cases others.argmin Prod.fst <;> rfl

theorem byteOpening?_nil (styles : List CommentStyle) (start : Nat) :
    byteOpening? styles start [] = none := by
  induction styles with
  | nil => rfl
  | cons style styles ih =>
    rw [byteOpening?_eq_earlier, ih]
    by_cases he : style.opening = "" <;> simp [byteOpeningOf?, byteOccurrence?, earlier, he]

/-- The first opening is at the front of the text or else the first one in the rest. -/
theorem byteOpening?_cons_char (styles : List CommentStyle) (start : Nat) (c : Char)
    (rest : List Char) : byteOpening? styles start (c :: rest) =
      match styleAt? styles (c :: rest) with
      | some style => some (start, style)
      | none => byteOpening? styles (start + c.utf8Size) rest := by
  have hpos := c.utf8Size_pos
  induction styles with
  | nil => rfl
  | cons style styles ih =>
    rw [byteOpening?_eq_earlier, byteOpening?_eq_earlier, byteOpeningOf?_cons, styleAt?_cons]
    by_cases hs : (!style.opening.isEmpty && style.opening.toList.isPrefixOf (c :: rest)) = true
    · rw [if_pos hs, if_pos hs]
      cases ho : byteOpening? styles start (c :: rest) with
      | none => rfl
      | some a =>
        have hle := le_of_byteOpening? ho
        simp [earlier]
        omega
    · rw [if_neg hs, if_neg hs, ih]
      cases styleAt? styles (c :: rest) with
      | none => rfl
      | some other =>
        cases ho : byteOpeningOf? style (start + c.utf8Size) rest with
        | none => rfl
        | some a =>
          have hle := le_of_byteOpeningOf? ho
          simp [earlier]
          omega

theorem sight?_append (styles : List CommentStyle) (passed text : List Char) :
    sight? styles (passed ++ text) (utf8Len passed) =
      match byteOpening? styles (utf8Len passed) text with
      | none => some .clear
      | some (opening, style) => commentAt? style (passed ++ text) opening := by
  simp [sight?, Text.splitAtByte?_utf8Len]

theorem sight?_copied (h : styleAt? styles (c :: rest) = none) (passed : List Char) :
    sight? styles (passed ++ c :: rest) (utf8Len passed) =
      sight? styles (passed ++ [c] ++ rest) (utf8Len (passed ++ [c])) := by
  have hsource : passed ++ c :: rest = passed ++ [c] ++ rest := by simp
  have hlen : utf8Len (passed ++ [c]) = utf8Len passed + c.utf8Size := by simp
  rw [sight?_append, sight?_append, hsource, hlen, byteOpening?_cons_char, h]

theorem commentAt?_append (style : CommentStyle) (passed : List Char) (c : Char)
    (rest : List Char) : commentAt? style (passed ++ c :: rest) (utf8Len passed) =
      match closingAt? style (c :: rest) with
      | none => some (.unclosed (utf8Len passed))
      | some i => some (.comment ⟨utf8Len passed,
          max (utf8Len (passed ++ (c :: rest).take i) + style.closing.utf8ByteSize)
            (utf8Len passed + style.opening.utf8ByteSize)⟩) := by
  have hsource : passed ++ c :: rest = passed ++ [c] ++ rest := by simp
  have hsearch : utf8Len passed + c.utf8Size = utf8Len (passed ++ [c]) := by simp
  have hcut := Text.splitAtByte?_utf8Len (passed ++ [c]) rest
  rw [← hsource] at hcut
  simp only [commentAt?, Text.splitAtByte?_utf8Len, Option.bind_eq_bind, Option.bind_some,
    List.head?_cons, Option.elim_some, hsearch, hcut, Text.byteOccurrence?_eq, closingAt?_cons]
  cases occurrence? style.closing.toList rest with
  | none => rfl
  | some i => simp [Nat.add_assoc, Nat.add_comm c.utf8Size]

theorem utf8Len_comment (hs : styleAt? styles text = some style)
    (hi : closingAt? style text = some i) :
    utf8Len (text.take (commentSize style i)) =
      max (utf8Len (text.take i) + style.closing.utf8ByteSize) style.opening.utf8ByteSize := by
  obtain ⟨-, hopening⟩ := prefix_of_styleAt? hs
  obtain ⟨-, hclosing⟩ := prefix_of_closingAt? hi
  have ho : text.take style.opening.length = style.opening.toList := by
    rw [← String.length_toList]
    exact (List.prefix_iff_eq_take.mp hopening).symm
  have hc : text.take (i + style.closing.length) = text.take i ++ style.closing.toList := by
    rw [List.take_add, ← String.length_toList, ← List.prefix_iff_eq_take.mp hclosing]
  have hol : utf8Len (text.take style.opening.length) = style.opening.utf8ByteSize := by
    rw [ho, String.utf8Len_toList]
  have hcl : utf8Len (text.take (i + style.closing.length)) =
      utf8Len (text.take i) + style.closing.utf8ByteSize := by
    rw [hc, String.utf8Len_append, String.utf8Len_toList]
  rw [← hol, ← hcl, commentSize]
  rcases Nat.le_total (i + style.closing.length) style.opening.length with h | h
  · rw [Nat.max_eq_right h, Nat.max_eq_right (Text.utf8Len_take_le h text)]
  · rw [Nat.max_eq_left h, Nat.max_eq_left (Text.utf8Len_take_le h text)]

theorem sight?_unclosed (hs : styleAt? styles (c :: rest) = some style)
    (hi : closingAt? style (c :: rest) = none) (passed : List Char) :
    sight? styles (passed ++ c :: rest) (utf8Len passed) = some (.unclosed (utf8Len passed)) := by
  rw [sight?_append, byteOpening?_cons_char, hs]
  dsimp only
  rw [commentAt?_append, hi]

theorem sight?_comment (hs : styleAt? styles (c :: rest) = some style)
    (hi : closingAt? style (c :: rest) = some i) (passed : List Char) :
    sight? styles (passed ++ c :: rest) (utf8Len passed) =
      some (.comment ⟨utf8Len passed,
        utf8Len (passed ++ (c :: rest).take (commentSize style i))⟩) := by
  rw [sight?_append, byteOpening?_cons_char, hs]
  dsimp only
  rw [commentAt?_append, hi]
  simp only [String.utf8Len_append, utf8Len_comment hs hi, Nat.add_assoc, Nat.add_max_add_left]

theorem byteRanges?_eq (styles : List CommentStyle) (source : List Char) (start : Nat) :
    byteRanges? styles source start =
      match sight? styles source start with
      | none => none
      | some .clear => some (.ok [])
      | some (.unclosed opening) => some (.error opening)
      | some (.comment e) => (byteRanges? styles source e.stop).map (·.map (e :: ·)) := by
  rw [byteRanges?]
  split <;> simp_all

theorem byteRanges?_copied (h : styleAt? styles (c :: rest) = none) (passed : List Char) :
    byteRanges? styles (passed ++ c :: rest) (utf8Len passed) =
      byteRanges? styles (passed ++ [c] ++ rest) (utf8Len (passed ++ [c])) := by
  have hsource : passed ++ c :: rest = passed ++ [c] ++ rest := by simp
  rw [byteRanges?_eq, sight?_copied h, hsource, ← byteRanges?_eq]

theorem blankAlong_none (i : Nat) (text : List Char) : blankAlong [] i text = text := by
  induction text generalizing i with
  | nil => rfl
  | cons c rest ih =>
    rw [blankAlong]
    exact congrArg (c :: ·) (ih _)

theorem blankAlong_past (h : e.stop ≤ i) (ranges : List Extent) (text : List Char) :
    blankAlong (e :: ranges) i text = blankAlong ranges i text := by
  cases text with
  | nil => rfl
  | cons c rest =>
    rw [blankAlong, blankAlong, List.dropWhile_cons_of_pos (by simpa using h)]

theorem blankAlong_before (h : ∀ e ∈ ranges, i < e.start ∧ e.start < e.stop) (c : Char)
    (rest : List Char) :
    blankAlong ranges i (c :: rest) = c :: blankAlong ranges (i + c.utf8Size) rest := by
  cases ranges with
  | nil => rfl
  | cons e ranges =>
    obtain ⟨hstart, hstop⟩ := h e List.mem_cons_self
    have hahead : ¬ e.stop ≤ i := by omega
    have hout : ¬ e.start ≤ i := by omega
    rw [blankAlong, List.dropWhile_cons_of_neg (by simpa using hahead)]
    simp [hout]

theorem blankAlong_inside (hstart : e.start ≤ i) (hstop : i + utf8Len text ≤ e.stop)
    (ranges : List Extent) (rest : List Char) :
    blankAlong (e :: ranges) i (text ++ rest) =
      blankAll text ++ blankAlong (e :: ranges) (i + utf8Len text) rest := by
  induction text generalizing i with
  | nil => rfl
  | cons c text ih =>
    have hpos := c.utf8Size_pos
    rw [String.utf8Len_cons] at hstop
    have hahead : ¬ e.stop ≤ i := by omega
    have hrest := ih (i := i + c.utf8Size) (by omega) (by omega)
    have hplace : i + c.utf8Size + utf8Len text = i + utf8Len (c :: text) := by
      rw [String.utf8Len_cons]
      omega
    rw [hplace] at hrest
    rw [List.cons_append, blankAlong, List.dropWhile_cons_of_neg (by simpa using hahead), hrest]
    cases hb : isBlank c <;> simp [blankAll, hstart, hb]

/-- A comment that lies between what has been passed and what comes later is blanked as a whole. -/
theorem blankAlong_comment (passed comment : List Char) (ranges : List Extent)
    (rest : List Char) :
    blankAlong (⟨utf8Len passed, utf8Len (passed ++ comment)⟩ :: ranges) (utf8Len passed)
        (comment ++ rest) =
      blankAll comment ++ blankAlong ranges (utf8Len (passed ++ comment)) rest := by
  have hlen : utf8Len passed + utf8Len comment = utf8Len (passed ++ comment) := by simp
  rw [blankAlong_inside (Nat.le_refl _) (Nat.le_of_eq hlen), hlen,
    blankAlong_past (Nat.le_refl _)]

/-- Where the walk comes to its end, the search finds comments that lie ahead, and the text with
them blanked is the one of the walk. -/
theorem byteRanges?_of_sweep {blanked : List Char} (h : sweep styles passed text = .ok blanked) :
    ∃ ranges, byteRanges? styles (passed ++ text) (utf8Len passed) = some (.ok ranges) ∧
      (∀ e ∈ ranges, utf8Len passed ≤ e.start ∧ e.start < e.stop) ∧
      blanked = blankAlong ranges (utf8Len passed) text := by
  fun_induction sweep styles passed text generalizing blanked with
  | case1 passed =>
    cases h
    refine ⟨[], ?_, by simp, rfl⟩
    rw [byteRanges?_eq, sight?_append, byteOpening?_nil]
  | case2 passed c rest hs ih =>
    obtain ⟨tail, htail, rfl⟩ := map_eq_ok_iff.mp h
    obtain ⟨ranges, hranges, hahead, rfl⟩ := ih htail
    have hlen : utf8Len (passed ++ [c]) = utf8Len passed + c.utf8Size := by simp
    have hpos := c.utf8Size_pos
    have hlater : ∀ e ∈ ranges, utf8Len passed < e.start ∧ e.start < e.stop := by
      intro e he
      have := hahead e he
      omega
    refine ⟨ranges, (byteRanges?_copied hs passed).trans hranges, ?_, ?_⟩
    · intro e he
      have := hlater e he
      omega
    · rw [blankAlong_before hlater, hlen]
  | case3 => cases h
  | case4 passed c rest style hs i hi =>
    rename_i comment ih
    obtain ⟨tail, htail, rfl⟩ := map_eq_ok_iff.mp h
    obtain ⟨ranges, hranges, hahead, rfl⟩ := ih htail
    have hsource : comment ++ (c :: rest).drop (commentSize style i) = c :: rest :=
      List.take_append_drop _ _
    have hsight := sight?_comment hs hi passed
    have hlt : utf8Len passed < utf8Len (passed ++ comment) := (lt_stop_of_sight? hsight).1
    refine ⟨⟨utf8Len passed, utf8Len (passed ++ comment)⟩ :: ranges, ?_, ?_, ?_⟩
    · rw [List.append_assoc, hsource] at hranges
      rw [byteRanges?_eq, hsight]
      dsimp only
      rw [hranges]
      rfl
    · intro e he
      rcases List.mem_cons.mp he with rfl | he
      · exact ⟨Nat.le_refl _, hlt⟩
      · have := hahead e he
        omega
    · have hblank := blankAlong_comment passed comment ranges
        ((c :: rest).drop (commentSize style i))
      rw [hsource] at hblank
      exact hblank.symm

/-- Where the walk fails, the search comes to an unclosed comment at the same place. -/
theorem byteRanges?_of_sweep_error {f : Fault} (h : sweep styles passed text = .error f) :
    ∃ before after, passed ++ text = before ++ after ∧
      byteRanges? styles (passed ++ text) (utf8Len passed) = some (.error (utf8Len before)) ∧
      f = ⟨.unterminatedComment, .counted before⟩ := by
  fun_induction sweep styles passed text generalizing f with
  | case1 => cases h
  | case2 passed c rest hs ih =>
    obtain ⟨before, after, hsource, hranges, hf⟩ := ih (map_eq_error_iff.mp h)
    refine ⟨before, after, ?_, (byteRanges?_copied hs passed).trans hranges, hf⟩
    rw [← hsource, List.append_assoc, List.singleton_append]
  | case3 passed c rest style hs hi =>
    cases h
    refine ⟨passed, c :: rest, rfl, ?_, rfl⟩
    rw [byteRanges?_eq, sight?_unclosed hs hi]
  | case4 passed c rest style hs i hi =>
    rename_i comment ih
    obtain ⟨before, after, hsource, hranges, hf⟩ := ih (map_eq_error_iff.mp h)
    rw [List.append_assoc, List.take_append_drop] at hsource hranges
    refine ⟨before, after, hsource, ?_, hf⟩
    rw [byteRanges?_eq, sight?_comment hs hi]
    dsimp only
    rw [hranges]
    rfl

theorem stripBytes?_eq (styles : List CommentStyle) (text : List Char) :
    stripBytes? styles text = some ((sweep styles [] text).mapError Fault.narrowed) := by
  cases h : sweep styles [] text with
  | ok blanked =>
    obtain ⟨ranges, hranges, -, rfl⟩ := byteRanges?_of_sweep h
    rw [stripBytes?, show byteRanges? styles text 0 = _ from hranges]
    cases ranges with
    | nil =>
      rw [blankAlong_none]
      rfl
    | cons e ranges => rfl
  | error f =>
    obtain ⟨before, after, hsource, hranges, rfl⟩ := byteRanges?_of_sweep_error h
    rw [stripBytes?, show byteRanges? styles text 0 = _ from hranges]
    dsimp only
    rw [show text = before ++ after from hsource, Text.splitAtByte?_utf8Len]
    rfl

theorem narrowed_counted {before : List Char} (cause : Fault.Cause)
    (h : before.length + 1 < UInt32.size) :
    Fault.narrowed ⟨cause, .counted before⟩ = ⟨cause, .counted before⟩ := by
  have hline : before.count '\n' ≤ before.length := List.count_le_length
  have hcolumn := (List.takeWhile_sublist (l := before.reverse) (· ≠ '\n')).length_le
  rw [List.length_reverse] at hcolumn
  refine narrowed_of_lt ?_ ?_
  · change before.count '\n' + 1 < _
    omega
  · change (before.reverse.takeWhile (· ≠ '\n')).length + 1 < _
    omega

/-- In a text that is not too long the place of a comment that is never closed is not cut. -/
theorem mapError_sweep (styles : List CommentStyle) (h : text.length + 1 < UInt32.size) :
    (sweep styles [] text).mapError Fault.narrowed = sweep styles [] text := by
  cases hs : sweep styles [] text with
  | ok blanked => rfl
  | error f =>
    obtain ⟨before, after, hsource, -, rfl⟩ := byteRanges?_of_sweep_error hs
    have hlength := congrArg List.length hsource
    rw [List.nil_append, List.length_append] at hlength
    exact congrArg Except.error (narrowed_counted _ (by omega))

/-- The delimiters overlap. -/
example : stripBytes? [⟨"/*", "*/"⟩] "a/*/é".toList = some (.ok "a   é".toList) := by
  decide +kernel

end Descent.Lexing
