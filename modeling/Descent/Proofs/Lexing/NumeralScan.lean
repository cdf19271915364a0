import Descent.Proofs.Binary64.Nearest
import Descent.Proofs.Lexing.Layout
import Mathlib

/-!
What numerals stand for, told from their texts alone. A text is without value if it is an integer
too large or lacks the digits of its exponent. Any other denotes an integer or the double nearest to
what is written, which is registered in the table for its kind.
-/
namespace Descent

namespace SymbolTable

variable {α : Type} [DecidableEq α]

/-- A table once an atom has been registered, and the index of the atom: the table as it was if it
had the atom, and with the atom at its end if not. -/
structure Registered (t : SymbolTable α) (a : α) (i : Nat) (t' : SymbolTable α) : Prop where
  atoms : t'.atoms = if a ∈ t.atoms then t.atoms else t.atoms ++ [a]
  index : t'.get? i = some a

theorem registered_register (t : SymbolTable α) (a : α) :
    Registered t a (t.register a).2 (t.register a).1 := by
  refine ⟨?_, t.get?_register a⟩
  rcases t.register_cases a with ⟨i, hi, h⟩ | ⟨hnone, h⟩
  · have ha : a ∈ t.atoms := isSome_find?.mp (Option.isSome_of_eq_some hi)
    rw [h, if_pos ha]
  · rw [h, if_neg (find?_eq_none_iff.mp hnone)]
    rfl

end SymbolTable

namespace Lexing

open SymbolTable (Registered)

variable {l : Lexicon} {c : Char} {t t' u u' : List Char} {n : Numeral} {literal : Literal}

/-- No two numerals are the longest that a text begins with. -/
theorem IsLongestNumeral.unique (h : IsLongestNumeral t u) (h' : IsLongestNumeral t' u')
    (hs : t ++ u = t' ++ u') : t = t' ∧ u = u' := by
  have hle : t.length ≤ t'.length := h'.2 t u hs h.1
  have hge : t'.length ≤ t.length := h.2 t' u' hs.symm h'.1
  exact List.append_inj hs (Nat.le_antisymm hle hge)

/-- Neither a point nor an exponent marker. -/
def IsWhole (t : List Char) : Prop := '.' ∉ t ∧ 'e' ∉ t ∧ 'E' ∉ t

/-- An exponent marker, and no digit after it. -/
def LacksExponentDigits (t : List Char) : Prop :=
  ∃ front marker tail, t = front ++ marker :: tail ∧ (marker = 'e' ∨ marker = 'E') ∧
    ∀ c ∈ tail, c.isDigit = false

/-- An integer that is too large, or an exponent without digits. -/
def Valueless (t : List Char) : Prop :=
  IsWhole t ∧ 2 ^ 63 ≤ decimalValue (String.ofList t) ∨ LacksExponentDigits t

namespace Numeral

theorem text_of_whole (hf : n.fraction = none) (he : n.exponent = none) : n.text = n.whole := by
  simp [text, hf, he]

theorem Proper.mem_text (hn : n.Proper) (he : n.exponent = none) (hc : c ∈ n.text) :
    c.isDigit = true ∨ c = '.' := by
  rw [text, he, Option.elim_none, List.append_nil] at hc
  rcases List.mem_append.mp hc with hw | hf
  · exact Or.inl (hn.whole c hw)
  · cases hfraction : n.fraction with
    | none =>
      rw [hfraction] at hf
      cases hf
    | some digits =>
      rw [hfraction] at hf
      rcases List.mem_cons.mp hf with hpoint | hd
      · exact Or.inr hpoint
      · exact Or.inl (hn.fraction digits hfraction c hd)

theorem Proper.isWhole_iff (hn : n.Proper) :
    IsWhole n.text ↔ n.fraction = none ∧ n.exponent = none := by
  constructor
  · rintro ⟨hpoint, he, hE⟩
    constructor
    · cases hf : n.fraction with
      | none => rfl
      | some digits => exact absurd (by simp [text, hf]) hpoint
    · cases hx : n.exponent with
      | none => rfl
      | some x =>
        have hm : x.marker ∈ n.text := by simp [text, hx, Exponent.text]
        rcases (hn.exponent x hx).marker with h | h <;> rw [h] at hm
        · exact absurd hm he
        · exact absurd hm hE
  · rintro ⟨hf, he⟩
    rw [text_of_whole hf he]
    refine ⟨fun h => ?_, fun h => ?_, fun h => ?_⟩ <;> exact absurd (hn.whole _ h) (by decide)

theorem Proper.lacksExponentDigits_iff (hn : n.Proper) :
    LacksExponentDigits n.text ↔ ∃ x ∈ n.exponent, x.digits = [] := by
  constructor
  · rintro ⟨front, marker, tail, htext, hmarker, htail⟩
    have hnot : marker.isDigit = false ∧ marker ≠ '.' := by
      rcases hmarker with rfl | rfl <;> decide
    cases hx : n.exponent with
    | none =>
      have hm : marker ∈ n.text := by simp [htext]
      rcases hn.mem_text hx hm with hd | hpoint
      · exact absurd (hnot.1.symm.trans hd) Bool.false_ne_true
      · exact absurd hpoint hnot.2
    | some x =>
      refine ⟨x, rfl, ?_⟩
      rcases List.eq_nil_or_concat' x.digits with hnil | ⟨digits, d, hd⟩
      · exact hnil
      · have hdigit : d.isDigit = true := (hn.exponent x hx).digits d (by simp [hd])
        obtain ⟨init, hinit⟩ : ∃ init, n.text = init ++ [d] := by
          refine ⟨n.whole ++ n.fraction.elim [] ('.' :: ·) ++
            x.marker :: (x.sign.toList ++ digits), ?_⟩
          simp [text, hx, Exponent.text, hd]
        have hmem : d ∈ marker :: tail := by
          have hlast : (front ++ marker :: tail).getLast? = some d := by
            rw [← htext, hinit, List.getLast?_concat]
          rw [List.getLast?_append_of_ne_nil _ (List.cons_ne_nil marker tail)] at hlast
          exact List.mem_of_getLast? hlast
        rcases List.mem_cons.mp hmem with rfl | hd'
        · exact absurd (hnot.1.symm.trans hdigit) Bool.false_ne_true
        · exact absurd ((htail d hd').symm.trans hdigit) Bool.false_ne_true
  · rintro ⟨x, hx, hd⟩
    obtain ⟨hmarker, hsign, -⟩ := hn.exponent x hx
    refine ⟨n.whole ++ n.fraction.elim [] ('.' :: ·), x.marker, x.sign.toList, ?_, hmarker, ?_⟩
    · rw [text, Option.mem_def.mp hx, Option.elim_some, Exponent.text, hd, List.append_nil]
    · intro c hc
      rcases hsign c (Option.mem_toList.mp hc) with rfl | rfl <;> decide

/-- The digits after the point. -/
def places (n : Numeral) : List Char := n.fraction.getD []

/-- The number that the digits before the point, those after it and the exponent are written for. -/
def value (n : Numeral) : ℚ :=
  (decimalValue (String.ofList n.whole) +
    decimalValue (String.ofList n.places) / 10 ^ n.places.length) *
      10 ^ n.exponent.elim 0 Exponent.value

theorem digitsValue_append (ds es : List Char) :
    digitsValue (ds ++ es) = digitsValue ds * 10 ^ es.length + digitsValue es := by
  induction es using List.reverseRecOn with
  | nil => simp [digitsValue]
  | append_singleton es e ih =>
    have hsnoc (ds : List Char) :
        digitsValue (ds ++ [e]) = 10 * digitsValue ds + (e.toNat - '0'.toNat) := by
      simp [digitsValue]
    rw [← List.append_assoc, hsnoc, hsnoc, ih, List.length_append, List.length_singleton, pow_succ]
    ring

/-- All digits but those of the exponent as one integer, in front of a power of ten. -/
theorem value_eq (n : Numeral) : n.value = (digitsValue (n.whole ++ n.places) : ℚ) *
    10 ^ (n.exponent.elim 0 Exponent.value - n.places.length) := by
  rw [value, decimalValue_ofList, decimalValue_ofList, digitsValue_append,
    zpow_sub₀ (by norm_num), zpow_natCast]
  push_cast
  field_simp

theorem literal?_of_whole (hf : n.fraction = none) (he : n.exponent = none) :
    n.literal? = if decimalValue (String.ofList n.text) < 2 ^ 63 then
      some (.integer (decimalValue (String.ofList n.text))) else none := by
  rw [text_of_whole hf he, decimalValue_ofList, literal?, hf, he]
  rfl

theorem any_isEmpty_digits :
    n.exponent.any (·.digits.isEmpty) = true ↔ ∃ x ∈ n.exponent, x.digits = [] := by
  cases n.exponent <;> simp

theorem literal?_of_parts (h : ¬ (n.fraction = none ∧ n.exponent = none)) :
    n.literal? = if n.exponent.any (·.digits.isEmpty) then none else
      some (.real (Binary64.ofScientific (digitsValue (n.whole ++ n.places))
        (n.exponent.elim 0 Exponent.value - n.places.length))) := by
  unfold literal?
  split
  · exact absurd ⟨‹_›, ‹_›⟩ h
  · rfl

end Numeral

/-- What the text of a numeral stands for: digits alone for an integer that is not too large, and
any other text for the double nearest to its value. -/
inductive Denotes : List Char → Literal → Prop
  | integer {t : List Char} (hw : IsWhole t) (hlt : decimalValue (String.ofList t) < 2 ^ 63) :
      Denotes t (.integer (decimalValue (String.ofList t)))
  | real {n : Numeral} {x : Binary64} (hn : n.Proper) (hw : ¬ IsWhole n.text)
      (hx : ∀ e ∈ n.exponent, e.digits ≠ []) (hnear : Binary64.IsNearest n.value x) :
      Denotes n.text (.real x)

/-- A numeral is without value or else has the value that its text denotes. -/
theorem Numeral.literal?_cases (hn : n.Proper) :
    (n.literal? = none ∧ Valueless n.text) ∨
      ∃ literal, n.literal? = some literal ∧ Denotes n.text literal ∧ ¬ Valueless n.text := by
  by_cases hparts : n.fraction = none ∧ n.exponent = none
  · have hw : IsWhole n.text := hn.isWhole_iff.mpr hparts
    have hlit := literal?_of_whole hparts.1 hparts.2
    have hlacks : ¬ LacksExponentDigits n.text := by
      rw [hn.lacksExponentDigits_iff, hparts.2]
      rintro ⟨x, hx, -⟩
      cases hx
    by_cases hlt : decimalValue (String.ofList n.text) < 2 ^ 63
    · right
      rw [if_pos hlt] at hlit
      refine ⟨_, hlit, .integer hw hlt, ?_⟩
      rintro (⟨-, hle⟩ | h)
      · exact Nat.not_lt.mpr hle hlt
      · exact hlacks h
    · left
      rw [if_neg hlt] at hlit
      exact ⟨hlit, Or.inl ⟨hw, Nat.not_lt.mp hlt⟩⟩
  · have hw : ¬ IsWhole n.text := mt hn.isWhole_iff.mp hparts
    have hlit := literal?_of_parts hparts
    by_cases hx : ∃ x ∈ n.exponent, x.digits = []
    · left
      rw [if_pos (any_isEmpty_digits.mpr hx)] at hlit
      exact ⟨hlit, Or.inr (hn.lacksExponentDigits_iff.mpr hx)⟩
    · right
      rw [if_neg (mt any_isEmpty_digits.mp hx)] at hlit
      refine ⟨_, hlit, .real hn hw (fun x hm hd => hx ⟨x, hm, hd⟩) ?_, ?_⟩
      · rw [n.value_eq]
        exact Binary64.isNearest_ofScientific _ _
      rintro (⟨h, -⟩ | h)
      · exact hw h
      · exact hx (hn.lacksExponentDigits_iff.mp h)

/-- A value registered as an atom of the table for its kind, with every other table as it was. -/
inductive RegistersAs (l : Lexicon) : Literal → Category → Nat → Lexicon → Prop
  | integer {value i : Nat} {table : SymbolTable Nat} (h : Registered l.integers value i table) :
      RegistersAs l (.integer value) .integer i { l with integers := table }
  | real {value : Binary64} {i : Nat} {table : SymbolTable Binary64}
      (h : Registered l.reals value i table) :
      RegistersAs l (.real value) .real i { l with reals := table }

theorem registersAs_register (l : Lexicon) (literal : Literal) :
    RegistersAs l literal (register l literal).2.1 (register l literal).2.2
      (register l literal).1 := by
  cases literal with
  | integer value => exact .integer (l.integers.registered_register value)
  | real value => exact .real (l.reals.registered_register value)

theorem RegistersAs.separators_eq {category : Category} {i : Nat} {l' : Lexicon}
    (h : RegistersAs l literal category i l') : l'.separators = l.separators := by
  cases h <;> rfl

/-- The least integer that is too large, and a point alone after it that makes a real of it. -/
example : (spelled? "9223372036854775808").isNone ∧ (spelled? "9223372036854775808.").isSome := by
  decide +kernel

end Lexing

end Descent
