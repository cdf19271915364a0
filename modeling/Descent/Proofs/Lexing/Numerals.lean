import Descent.Lexing.Numeral
import Descent.Proofs.Text.Blank
import Mathlib.Data.List.Induction
import Mathlib.Data.List.TakeWhile
import Mathlib.Data.Nat.Digits.Defs

/-!
The grammar of numerals. What is read as a numeral is the longest front of the text that the grammar
allows, and a text that is a numeral as a whole tells its value by itself.
-/
namespace Descent.Lexing

open Text (isBlank)

variable {c : Char} {t u digits : List Char} {e : Option Exponent} {fraction : Option (List Char)}

/-- A marker, at most one sign, and digits. -/
structure Exponent.Proper (e : Exponent) : Prop where
  marker : e.marker = 'e' ∨ e.marker = 'E'
  sign : ∀ c ∈ e.sign, c = '+' ∨ c = '-'
  digits : ∀ c ∈ e.digits, c.isDigit = true

/-- Digits, at least one of them, and perhaps a point with digits and an exponent. -/
structure Numeral.Proper (n : Numeral) : Prop where
  ne_nil : n.whole ≠ []
  whole : ∀ c ∈ n.whole, c.isDigit = true
  fraction : ∀ digits ∈ n.fraction, ∀ c ∈ digits, c.isDigit = true
  exponent : ∀ e ∈ n.exponent, e.Proper

/-- The texts that the grammar allows. -/
def IsNumeral (text : List Char) : Prop := ∃ n : Numeral, n.Proper ∧ n.text = text

theorem length_dropWhile_le (t : List Char) : (t.dropWhile Char.isDigit).length ≤ t.length :=
  (List.dropWhile_sublist _).length_le

/-- A run of characters of one kind ends where one of another kind follows. -/
theorem span_append {P : Char → Bool} (ht : ∀ c ∈ t, P c = true)
    (hu : ∀ c ∈ u.head?, P c = false) : (t ++ u).takeWhile P = t ∧ (t ++ u).dropWhile P = u := by
  have hnone : u.takeWhile P = [] ∧ u.dropWhile P = u := by
    cases u with
    | nil => exact ⟨rfl, rfl⟩
    | cons c u => simp [hu c rfl]
  rw [List.takeWhile_append_of_pos ht, List.dropWhile_append_of_pos ht, hnone.1, hnone.2]
  exact ⟨List.append_nil t, rfl⟩

namespace Exponent

theorem length_readSign_le (t : List Char) : (readSign t).2.length ≤ t.length := by
  have h := congrArg List.length (readSign_append t)
  rw [List.length_append] at h
  omega

theorem length_read_le (t : List Char) : (read t).2.length ≤ t.length := by
  have h := congrArg List.length (read_append t)
  rw [List.length_append] at h
  omega

theorem sign_of_readSign : ∀ c ∈ (readSign t).1, c = '+' ∨ c = '-' := by
  fun_cases readSign t with
  | case1 | case3 => simp
  | case2 c rest hc =>
    intro d hd
    cases hd
    exact hc

theorem proper_of_read : ∀ e ∈ (read t).1, e.Proper := by
  cases t with
  | nil => simp [read]
  | cons c rest =>
    rw [read]
    split
    · rename_i hc
      intro e he
      cases he
      exact ⟨hc, sign_of_readSign, fun _ => List.mem_takeWhile_imp⟩
    · simp

/-- A sign is no digit, so digits in front of the text stay with what follows the sign. -/
theorem length_digits_le (hd : ∀ c ∈ digits, c.isDigit = true) :
    ((readSign (digits ++ u)).2.dropWhile Char.isDigit).length ≤ u.length := by
  cases digits with
  | nil => exact Nat.le_trans (length_dropWhile_le _) (length_readSign_le u)
  | cons d ds =>
    have hs : ¬ (d = '+' ∨ d = '-') := by
      have := hd d List.mem_cons_self
      rintro (rfl | rfl) <;> contradiction
    rw [List.cons_append, readSign, if_neg hs, ← List.cons_append,
      List.dropWhile_append_of_pos hd]
    exact length_dropWhile_le u

/-- No exponent at the front of the text leaves less of it than the one that is read. -/
theorem length_read_le_of_proper (he : ∀ x ∈ e, x.Proper) (h : e.elim [] text ++ u = t) :
    (read t).2.length ≤ u.length := by
  subst h
  cases e with
  | none => exact length_read_le u
  | some x =>
    obtain ⟨marker, sign, digits⟩ := x
    obtain ⟨hm, hs, hd⟩ := he _ rfl
    simp only [Option.elim_some, text, List.cons_append, List.append_assoc]
    rw [read, if_pos hm]
    cases sign with
    | none => exact length_digits_le hd
    | some s =>
      have hsign : readSign (s :: (digits ++ u)) = (some s, digits ++ u) := if_pos (hs s rfl)
      simp only [Option.toList_some, List.cons_append, List.nil_append, hsign]
      rw [List.dropWhile_append_of_pos hd]
      exact length_dropWhile_le u

end Exponent

namespace Numeral

theorem length_readFraction_le (t : List Char) : (readFraction t).2.length ≤ t.length := by
  have h := congrArg List.length (readFraction_append t)
  rw [List.length_append] at h
  omega

theorem proper_of_read (hc : c.isDigit = true) : (read (c :: t)).1.Proper := by
  refine ⟨by simp [read, hc], fun _ => List.mem_takeWhile_imp, ?_, Exponent.proper_of_read⟩
  change ∀ digits ∈ (readFraction _).1, _
  fun_cases readFraction ((c :: t).dropWhile Char.isDigit) with
  | case1 | case3 => simp
  | case2 =>
    intro digits hd
    cases hd
    exact fun _ => List.mem_takeWhile_imp

/-- Neither a digit nor a point begins an exponent, so what is read before it ends there. -/
theorem read_before_exponent {x : Exponent} (hx : x.Proper) :
    (x.text ++ u).dropWhile Char.isDigit = x.text ++ u ∧
      readFraction (x.text ++ u) = (none, x.text ++ u) := by
  obtain ⟨marker, sign, digits⟩ := x
  have hm : marker.isDigit = false ∧ marker ≠ '.' := by
    obtain rfl | rfl := hx.marker <;> decide
  simp [Exponent.text, readFraction, hm]

/-- No fraction with an exponent at the front of the text leaves less of it than those that are
read. -/
theorem length_readFraction_le_of_proper
    (hf : ∀ digits ∈ fraction, ∀ c ∈ digits, c.isDigit = true) (he : ∀ x ∈ e, x.Proper)
    (h : fraction.elim [] ('.' :: ·) ++ (e.elim [] Exponent.text ++ u) = t) :
    (Exponent.read (readFraction t).2).2.length ≤ u.length := by
  have hpoint (digits v : List Char) (hd : ∀ c ∈ digits, c.isDigit = true) :
      (readFraction ('.' :: (digits ++ v))).2 = v.dropWhile Char.isDigit := by
    rw [readFraction, if_pos rfl]
    exact List.dropWhile_append_of_pos hd
  subst h
  cases e with
  | none =>
    refine Nat.le_trans (Exponent.length_read_le _) ?_
    cases fraction with
    | none => exact length_readFraction_le u
    | some digits =>
      simp only [Option.elim_some, Option.elim_none, List.nil_append, List.cons_append]
      rw [hpoint digits u (hf digits rfl)]
      exact length_dropWhile_le u
  | some x =>
    obtain ⟨hdrop, hread⟩ := read_before_exponent (u := u) (he x rfl)
    have hexp := Exponent.length_read_le_of_proper (u := u) he rfl
    cases fraction with
    | none =>
      simp only [Option.elim_some, Option.elim_none, List.nil_append] at hexp ⊢
      rwa [hread]
    | some digits =>
      simp only [Option.elim_some, List.cons_append] at hexp ⊢
      rwa [hpoint digits _ (hf digits rfl), hdrop]

/-- No numeral at the front of the text leaves less of it than the one that is read. -/
theorem length_read_le_of_proper {m : Numeral} (hm : m.Proper) (h : m.text ++ u = t) :
    (read t).2.length ≤ u.length := by
  obtain ⟨whole, fraction, e⟩ := m
  obtain ⟨-, hw, hf, he⟩ := hm
  have htail := length_readFraction_le_of_proper (u := u) hf he rfl
  subst h
  change (Exponent.read (readFraction ((_ ++ u).dropWhile Char.isDigit)).2).2.length ≤ _
  rw [text, List.append_assoc, List.append_assoc, List.dropWhile_append_of_pos hw]
  cases fraction with
  | some digits => exact htail
  | none =>
    cases e with
    | some x =>
      rw [Option.elim_none, List.nil_append] at htail ⊢
      rwa [Option.elim_some, (read_before_exponent (he x rfl)).1]
    | none =>
      simp only [Option.elim_none, List.nil_append]
      calc (Exponent.read (readFraction (u.dropWhile Char.isDigit)).2).2.length
        _ ≤ (readFraction (u.dropWhile Char.isDigit)).2.length := Exponent.length_read_le _
        _ ≤ (u.dropWhile Char.isDigit).length := length_readFraction_le _
        _ ≤ u.length := length_dropWhile_le u

theorem Proper.text_ne_nil {n : Numeral} (hn : n.Proper) : n.text ≠ [] := by
  simp [text, hn.ne_nil]

theorem Proper.not_isBlank_of_mem {n : Numeral} (hn : n.Proper) (h : c ∈ n.text) :
    isBlank c = false := by
  have hdigit {d : Char} (hd : d.isDigit = true) : isBlank d = false :=
    Text.not_isBlank_of_isWordChar (Text.isWordChar_of_isDigit hd)
  obtain ⟨whole, fraction, e⟩ := n
  obtain ⟨-, hw, hf, he⟩ := hn
  rcases List.mem_append.mp h with h | h
  · rcases List.mem_append.mp h with h | h
    · exact hdigit (hw c h)
    · cases fraction with
      | none => cases h
      | some digits =>
        rcases List.mem_cons.mp h with rfl | h
        · decide
        · exact hdigit (hf digits rfl c h)
  · cases e with
    | none => cases h
    | some x =>
      obtain ⟨hm, hs, hd⟩ := he x rfl
      rcases List.mem_cons.mp h with rfl | h
      · rcases hm with hm | hm <;> rw [hm] <;> decide
      · rcases List.mem_append.mp h with h | h
        · rcases hs c (Option.mem_toList.mp h) with rfl | rfl <;> decide
        · exact hdigit (hd c h)

theorem not_isDigit_of_isBlank (hb : isBlank c = true) : c.isDigit = false := by
  rw [Bool.eq_false_iff]
  intro hd
  rw [Text.not_isBlank_of_isWordChar (Text.isWordChar_of_isDigit hd)] at hb
  cases hb

theorem readSign_text {x : Exponent} (hx : x.Proper) (hu : ∀ c ∈ u.head?, isBlank c = true) :
    Exponent.readSign (x.sign.toList ++ (x.digits ++ u)) = (x.sign, x.digits ++ u) := by
  obtain ⟨marker, sign, digits⟩ := x
  cases sign with
  | some s => exact if_pos (hx.sign s rfl)
  | none =>
    change Exponent.readSign (digits ++ u) = (none, digits ++ u)
    have hhead : ∀ c ∈ (digits ++ u).head?, ¬ (c = '+' ∨ c = '-') := by
      intro c hc
      cases digits with
      | nil =>
        have := hu c hc
        rintro (rfl | rfl) <;> exact absurd this (by decide)
      | cons d ds =>
        cases hc
        have := hx.digits c List.mem_cons_self
        rintro (rfl | rfl) <;> contradiction
    cases h : digits ++ u with
    | nil => rfl
    | cons c rest =>
      rw [h] at hhead
      exact if_neg (hhead c rfl)

theorem readExponent_text (he : ∀ x ∈ e, x.Proper) (hu : ∀ c ∈ u.head?, isBlank c = true) :
    Exponent.read (e.elim [] Exponent.text ++ u) = (e, u) := by
  cases e with
  | none =>
    cases u with
    | nil => rfl
    | cons c u =>
      refine if_neg ?_
      have := hu c rfl
      rintro (rfl | rfl) <;> exact absurd this (by decide)
  | some x =>
    have hx := he x rfl
    obtain ⟨ht, hd⟩ := span_append hx.digits fun c hc => not_isDigit_of_isBlank (hu c hc)
    rw [Option.elim_some, Exponent.text, List.cons_append, List.append_assoc, Exponent.read,
      if_pos hx.marker, readSign_text hx hu]
    dsimp only
    rw [ht, hd]

theorem head?_exponent (he : ∀ x ∈ e, x.Proper) (hu : ∀ c ∈ u.head?, isBlank c = true) :
    ∀ c ∈ (e.elim [] Exponent.text ++ u).head?, c.isDigit = false ∧ c ≠ '.' := by
  intro c hc
  cases e with
  | none =>
    have hb := hu c hc
    refine ⟨not_isDigit_of_isBlank hb, ?_⟩
    rintro rfl
    exact absurd hb (by decide)
  | some x =>
    cases hc
    obtain h | h := (he x rfl).marker <;> rw [h] <;> decide

theorem readFraction_text (hf : ∀ digits ∈ fraction, ∀ c ∈ digits, c.isDigit = true)
    (hu : ∀ c ∈ u.head?, c.isDigit = false ∧ c ≠ '.') :
    readFraction (fraction.elim [] ('.' :: ·) ++ u) = (fraction, u) ∧
      ∀ c ∈ (fraction.elim [] ('.' :: ·) ++ u).head?, c.isDigit = false := by
  cases fraction with
  | none =>
    refine ⟨?_, fun c hc => (hu c hc).1⟩
    cases u with
    | nil => rfl
    | cons c u => exact if_neg (hu c rfl).2
  | some digits =>
    obtain ⟨ht, hd⟩ := span_append (hf digits rfl) fun c hc => (hu c hc).1
    refine ⟨?_, ?_⟩
    · rw [Option.elim_some, List.cons_append, readFraction, if_pos rfl, ht, hd]
    · intro c hc
      cases hc
      decide

/-- The numeral that was written is read back from its text. -/
theorem read_text_append {n : Numeral} (hn : n.Proper) (hu : ∀ c ∈ u.head?, isBlank c = true) :
    read (n.text ++ u) = (n, u) := by
  obtain ⟨hr, hh⟩ := readFraction_text hn.fraction (head?_exponent hn.exponent hu)
  obtain ⟨ht, hd⟩ := span_append hn.whole hh
  rw [text, List.append_assoc, List.append_assoc, read, ht, hd, hr]
  dsimp only
  rw [readExponent_text hn.exponent hu]

end Numeral

/-- A numeral that is no part of a longer one where `rest` comes after it. -/
def IsLongestNumeral (text rest : List Char) : Prop :=
  IsNumeral text ∧ ∀ s u, s ++ u = text ++ rest → IsNumeral s → s.length ≤ text.length

theorem isLongestNumeral_read (hc : c.isDigit = true) :
    IsLongestNumeral (Numeral.read (c :: t)).1.text (Numeral.read (c :: t)).2 := by
  refine ⟨⟨_, Numeral.proper_of_read hc, rfl⟩, ?_⟩
  rintro s u hs ⟨m, hm, rfl⟩
  have hle := Numeral.length_read_le_of_proper hm (hs.trans (Numeral.text_read_append _))
  have hlen := congrArg List.length hs
  simp only [List.length_append] at hlen
  omega

/-- What the numeral is that is read from a text that begins with a digit. -/
theorem longest_of_read {n : Numeral} (hc : c.isDigit = true)
    (h : Numeral.read (c :: t) = (n, u)) :
    n.Proper ∧ IsLongestNumeral n.text u ∧ n.text ++ u = c :: t := by
  have hproper := Numeral.proper_of_read (t := t) hc
  have hlongest := isLongestNumeral_read (t := t) hc
  have happend := Numeral.text_read_append (c :: t)
  rw [h] at hproper hlongest happend
  exact ⟨hproper, hlongest, happend⟩

theorem Numeral.Proper.eq_of_text {m n : Numeral} (hm : m.Proper) (hn : n.Proper)
    (h : m.text = n.text) : m = n := by
  have hreadm := Numeral.read_text_append (u := []) hm nofun
  have hreadn := Numeral.read_text_append (u := []) hn nofun
  rw [h, hreadn] at hreadm
  exact (congrArg Prod.fst hreadm).symm

/-- A numeral is read all the same where less of the text comes after it. -/
theorem Numeral.read_cut {n : Numeral} {v front : List Char} (hc : c.isDigit = true)
    (h : read (c :: t) = (n, u ++ v)) (hf : c :: front = n.text ++ u) :
    read (c :: front) = (n, u) := by
  obtain ⟨hn, hlongest, -⟩ := longest_of_read hc h
  generalize hr : read (c :: front) = r
  obtain ⟨m, w⟩ := r
  obtain ⟨hm, hmlongest, hmw⟩ := longest_of_read hc hr
  have hsame : m.text ++ w = n.text ++ u := hmw.trans hf
  have hle : m.text.length ≤ n.text.length := by
    refine hlongest.2 m.text (w ++ v) ?_ ⟨m, hm, rfl⟩
    rw [← List.append_assoc, hsame, List.append_assoc]
  have hge : n.text.length ≤ m.text.length := hmlongest.2 n.text u hsame.symm ⟨n, hn, rfl⟩
  obtain ⟨htext, rfl⟩ := List.append_inj hsame (Nat.le_antisymm hle hge)
  rw [hm.eq_of_text hn htext]

/-- What a text stands for that is a numeral as a whole. -/
def spelled? (text : String) : Option Literal :=
  match Numeral.read text.toList with
  | (n, []) => n.literal?
  | (_, _ :: _) => none

theorem spelled?_ofList {n : Numeral} (hn : n.Proper) :
    spelled? (String.ofList n.text) = n.literal? := by
  have hr := Numeral.read_text_append (u := []) hn nofun
  rw [List.append_nil] at hr
  rw [spelled?, String.toList_ofList, hr]

/-- The number whose decimal digits the text lists. -/
def decimalValue (text : String) : Nat :=
  Nat.ofDigits 10 (text.toList.map fun c => c.toNat - '0'.toNat).reverse

theorem decimalValue_ofList (digits : List Char) :
    decimalValue (String.ofList digits) = digitsValue digits := by
  rw [decimalValue, String.toList_ofList]
  induction digits using List.reverseRecOn with
  | nil => rfl
  | append_singleton digits c ih =>
    rw [List.map_append, List.reverse_append, List.map_singleton, List.reverse_singleton,
      List.singleton_append, Nat.ofDigits_cons, ih, digitsValue, digitsValue, List.foldl_append]
    exact Nat.add_comm _ _

/-- An integer is written as one run of digits. -/
theorem Numeral.text_of_integer {n : Numeral} {value : Nat}
    (h : n.literal? = some (.integer value)) :
    n.text = n.whole ∧ value = decimalValue (String.ofList n.text) := by
  obtain ⟨whole, fraction, e⟩ := n
  unfold literal? at h
  split at h
  · rename_i hf he
    cases hf
    cases he
    have ht : text ⟨whole, none, none⟩ = whole := by simp [text]
    rw [ht, decimalValue_ofList]
    dsimp only at h
    split at h
    · cases h
      exact ⟨rfl, rfl⟩
    · cases h
  · dsimp only at h
    split at h <;> cases h

end Descent.Lexing
