import Descent.Text.Search
import Mathlib.Data.List.Infix
import Mathlib.Data.String.Basic

/-!
Offsets in bytes of UTF-8. A text may be cut only where a character begins or at its end; the first
occurrence of a pattern is such a place.
-/
namespace Descent.Text

open String (utf8Len)

variable {text rest pre post pattern : List Char} {c : Char} {offset : Nat}

/-- The text before a byte offset and the text from there on. There is neither for an offset past
the end or inside a character. -/
def splitAtByte? (text : List Char) (offset : Nat) : Option (List Char × List Char) :=
  match text, offset with
  | text, 0 => some ([], text)
  | [], _ + 1 => none
  | c :: rest, n + 1 =>
    if c.utf8Size ≤ n + 1 then
      (splitAtByte? rest (n + 1 - c.utf8Size)).map fun (before, after) => (c :: before, after)
    else none

theorem splitAtByte?_utf8Len (pre post : List Char) :
    splitAtByte? (pre ++ post) (utf8Len pre) = some (pre, post) := by
  induction pre with
  | nil => cases post <;> rfl
  | cons c pre ih =>
    have hpos := c.utf8Size_pos
    obtain ⟨n, hn⟩ : ∃ n, utf8Len pre + c.utf8Size = n + 1 :=
      ⟨utf8Len pre + c.utf8Size - 1, by omega⟩
    have hrest : n + 1 - c.utf8Size = utf8Len pre := by omega
    rw [String.utf8Len_cons, hn, List.cons_append, splitAtByte?, if_pos (by omega), hrest, ih]
    rfl

theorem splitAtByte?_eq_some_iff :
    splitAtByte? text offset = some (pre, post) ↔ text = pre ++ post ∧ offset = utf8Len pre := by
  constructor
  · intro h
    fun_induction splitAtByte? text offset generalizing pre post with
    | case1 text =>
      cases h
      exact ⟨rfl, rfl⟩
    | case2 => cases h
    | case3 c rest n hle ih =>
      obtain ⟨⟨before, after⟩, hs, he⟩ := Option.map_eq_some_iff.mp h
      cases he
      obtain ⟨rfl, hn⟩ := ih hs
      refine ⟨rfl, ?_⟩
      rw [String.utf8Len_cons]
      omega
    | case4 => cases h
  · rintro ⟨rfl, rfl⟩
    exact splitAtByte?_utf8Len pre post

/-- A text may be cut exactly at the valid positions of the string. -/
theorem isSome_splitAtByte?_iff :
    (splitAtByte? text offset).isSome ↔ String.Pos.Raw.IsValid (String.ofList text) ⟨offset⟩ := by
  rw [Option.isSome_iff_exists, String.Pos.Raw.isValid_iff_exists_append]
  constructor
  · rintro ⟨⟨pre, post⟩, h⟩
    obtain ⟨rfl, rfl⟩ := splitAtByte?_eq_some_iff.mp h
    exact ⟨String.ofList pre, String.ofList post, String.ofList_append, by simp⟩
  · rintro ⟨s, t, hs, hp⟩
    refine ⟨(s.toList, t.toList), splitAtByte?_eq_some_iff.mpr ⟨?_, ?_⟩⟩
    · rw [← String.toList_append, ← hs, String.toList_ofList]
    · rw [String.utf8Len_toList]
      exact congrArg String.Pos.Raw.byteIdx hp

theorem utf8Len_take_le {i j : Nat} (h : i ≤ j) (text : List Char) :
    utf8Len (text.take i) ≤ utf8Len (text.take j) :=
  String.utf8Len_le_of_prefix (List.take_prefix_take_left h)

/-- The byte offset at which `pattern` first occurs. -/
def byteOccurrence? (pattern : List Char) : List Char → Option Nat
  | [] => if pattern.isEmpty then some 0 else none
  | c :: rest =>
    if pattern.isPrefixOf (c :: rest) then some 0
    else (byteOccurrence? pattern rest).map (· + c.utf8Size)

theorem byteOccurrence?_eq (pattern text : List Char) : byteOccurrence? pattern text =
    (occurrence? pattern text).map fun i => utf8Len (text.take i) := by
  fun_induction occurrence? pattern text with
  | case1 h => simp [byteOccurrence?, h]
  | case2 h => simp [byteOccurrence?, h]
  | case3 c rest h => simp [byteOccurrence?, h]
  | case4 c rest h ih => simp [byteOccurrence?, h, ih, Function.comp_def]

/-- The first of the places, from the front of the text to its end, at which `pattern` stands. -/
theorem occurrence?_eq_find? (pattern text : List Char) : occurrence? pattern text =
    (List.range (text.length + 1)).find? fun i => pattern.isPrefixOf (text.drop i) := by
  induction text with
  | nil => cases pattern <;> rfl
  | cons c rest ih =>
    rw [occurrence?, List.length_cons, List.range_succ_eq_map, List.find?_cons, List.find?_map,
      List.drop_zero]
    by_cases h : pattern.isPrefixOf (c :: rest) = true
    · rw [if_pos h, h]
    · rw [if_neg h, Bool.eq_false_iff.mpr h, ih]
      rfl

end Descent.Text
