import Descent.Json.Token
import Descent.Proofs.Json.Spelling
import Descent.Proofs.Lexing.Numerals

/-!
Tokens read from their spelling. A string literal gives back its code units, put together to the
one text that has them in UTF-16; a number is taken as far as it goes.
-/
namespace Descent.Json

variable {c d : Char} {h l n : Nat} {us vs : List Nat} {s t rest : List Char} {ps : List Piece}

/-- One code unit that is no surrogate, or two surrogates that make up the code. -/
theorem utf16_cases (c : Char) :
    (utf16 c = [c.toNat] ∧ c.toNat < 0x10000 ∧ ¬ (0xD800 ≤ c.toNat ∧ c.toNat < 0xE000)) ∨
    ∃ h l, utf16 c = [h, l] ∧ (0xD800 ≤ h ∧ h < 0xDC00) ∧ (0xDC00 ≤ l ∧ l < 0xE000) ∧
      c.toNat = 0x10000 + (h - 0xD800) * 0x400 + (l - 0xDC00) := by
  have hvalid : c.toNat < 0xD800 ∨ 0xDFFF < c.toNat ∧ c.toNat < 0x110000 := c.valid
  unfold utf16
  split
  · exact Or.inl ⟨rfl, ‹_›, by omega⟩
  · exact Or.inr ⟨_, _, rfl, by omega, by omega, by omega⟩

theorem toNat_ofNat (hs : ¬ (0xD800 ≤ n ∧ n < 0xE000)) (hn : n < 0x110000) :
    (Char.ofNat n).toNat = n := by
  have hvalid : n.isValidChar := by
    unfold Nat.isValidChar
    omega
  rw [Char.ofNat, dif_pos hvalid]
  rfl

theorem utf16_pair (hh : 0xD800 ≤ h ∧ h < 0xDC00) (hl : 0xDC00 ≤ l ∧ l < 0xE000) :
    utf16 (Char.ofNat (0x10000 + (h - 0xD800) * 0x400 + (l - 0xDC00))) = [h, l] := by
  rw [utf16, toNat_ofNat (by omega) (by omega), if_neg (by omega), Nat.add_assoc,
    Nat.add_sub_cancel_left]
  have hhigh : 0xD800 + ((h - 0xD800) * 0x400 + (l - 0xDC00)) / 0x400 = h := by omega
  have hlow : 0xDC00 + ((h - 0xD800) * 0x400 + (l - 0xDC00)) % 0x400 = l := by omega
  rw [hhigh, hlow]

/-- The first code unit tells whether there is a second one. -/
theorem utf16_append_inj (he : utf16 c ++ us = utf16 d ++ vs) : c = d ∧ us = vs := by
  rcases utf16_cases c with ⟨hc, hlt, hs⟩ | ⟨h, l, hc, hh, hl, hn⟩ <;>
    rcases utf16_cases d with ⟨hd, hlt', hs'⟩ | ⟨h', l', hd, hh', hl', hn'⟩ <;>
    rw [hc, hd] at he
  · obtain ⟨hcd, he⟩ := List.cons_eq_cons.mp he
    exact ⟨Char.toNat_inj.mp hcd, he⟩
  · obtain ⟨hcd, -⟩ := List.cons_eq_cons.mp he
    omega
  · obtain ⟨hcd, -⟩ := List.cons_eq_cons.mp he
    omega
  · obtain ⟨hhigh, he⟩ := List.cons_eq_cons.mp he
    obtain ⟨hlow, he⟩ := List.cons_eq_cons.mp he
    exact ⟨Char.toNat_inj.mp (by rw [hn, hn', hhigh, hlow]), he⟩

namespace Piece

/-- The code units of a piece. -/
def units : Piece → List Nat
  | .char c => utf16 c
  | .high u | .low u => [u]

/-- The halves of pairs are in their ranges. -/
def Proper : Piece → Prop
  | .char _ => True
  | .high u => 0xD800 ≤ u ∧ u < 0xDC00
  | .low u => 0xDC00 ≤ u ∧ u < 0xE000

theorem ofUnit_proper (hn : n < 0x10000) : (ofUnit n).Proper ∧ (ofUnit n).units = [n] := by
  unfold ofUnit
  split
  · exact ⟨‹_›, rfl⟩
  · split
    · exact ⟨‹_›, rfl⟩
    · refine ⟨trivial, ?_⟩
      have hc : (Char.ofNat n).toNat = n := toNat_ofNat (by omega) (by omega)
      rw [units, utf16, hc, if_pos hn]

/-- Only the second half of a pair begins with the code unit of one. -/
theorem eq_low_of_units {p : Piece} (hp : p.Proper) (hl : 0xDC00 ≤ l ∧ l < 0xE000)
    (he : p.units ++ us = l :: vs) : p = .low l := by
  cases p with
  | low u =>
    obtain ⟨rfl, -⟩ := List.cons_eq_cons.mp he
    rfl
  | high u =>
    obtain ⟨rfl, -⟩ := List.cons_eq_cons.mp he
    exact absurd hp.2 (by omega)
  | char c =>
    rw [units] at he
    rcases utf16_cases c with ⟨hc, -, hs⟩ | ⟨h, _, hc, hh, -⟩ <;> rw [hc] at he
    · obtain ⟨rfl, -⟩ := List.cons_eq_cons.mp he
      exact (hs ⟨by omega, hl.2⟩).elim
    · obtain ⟨rfl, -⟩ := List.cons_eq_cons.mp he
      omega

end Piece

theorem flatMap_utf16_eq_append_iff : t.flatMap utf16 = utf16 c ++ us ↔
    ∃ rest, t = c :: rest ∧ rest.flatMap utf16 = us := by
  constructor
  · intro h
    cases t with
    | nil => rcases utf16_cases c with ⟨hc, -⟩ | ⟨_, _, hc, -⟩ <;> simp [hc] at h
    | cons d rest =>
      obtain ⟨rfl, hr⟩ := utf16_append_inj h
      exact ⟨rest, rfl, hr⟩
  · rintro ⟨rest, rfl, rfl⟩
    rfl

/-- Code units that begin with one half of a pair are those of a text only if they go on with the
other half. -/
theorem exists_low_of_flatMap_utf16 (hn : 0xD800 ≤ n ∧ n < 0xE000)
    (he : t.flatMap utf16 = n :: us) :
    n < 0xDC00 ∧ ∃ l vs, us = l :: vs ∧ 0xDC00 ≤ l ∧ l < 0xE000 := by
  cases t with
  | nil => cases he
  | cons c t =>
    rw [List.flatMap_cons] at he
    rcases utf16_cases c with ⟨hc, -, hs⟩ | ⟨h, l, hc, hh, hl, -⟩ <;> rw [hc] at he
    · obtain ⟨rfl, -⟩ := List.cons_eq_cons.mp he
      exact (hs hn).elim
    · obtain ⟨rfl, rfl⟩ := List.cons_eq_cons.mp he
      exact ⟨hh.2, l, _, rfl, hl⟩

theorem assemble_char_iff
    (ih : ∀ rest, assemble ps = some rest ↔ rest.flatMap utf16 = ps.flatMap Piece.units) :
    (assemble ps).map (c :: ·) = some t ↔
      t.flatMap utf16 = utf16 c ++ ps.flatMap Piece.units := by
  rw [flatMap_utf16_eq_append_iff, Option.map_eq_some_iff]
  exact exists_congr fun rest => and_comm.trans (and_congr eq_comm (ih rest))

/-- Pieces make up the text whose code units they have. -/
theorem assemble_eq_some_iff (hp : ∀ p ∈ ps, p.Proper) :
    assemble ps = some t ↔ t.flatMap utf16 = ps.flatMap Piece.units := by
  fun_induction assemble ps generalizing t with
  | case1 =>
    cases t with
    | nil => simp
    | cons c t => rcases utf16_cases c with ⟨hc, -⟩ | ⟨_, _, hc, -⟩ <;> simp [hc]
  | case2 c ps ih => exact assemble_char_iff fun _ => ih (List.forall_mem_cons.mp hp).2
  | case3 h l ps ih =>
    obtain ⟨hh, hp⟩ := List.forall_mem_cons.mp hp
    obtain ⟨hl, hp⟩ := List.forall_mem_cons.mp hp
    rw [assemble_char_iff fun _ => ih hp, utf16_pair hh hl]
    rfl
  | case4 ps hnil hchar hpair =>
    refine iff_of_false nofun fun he => ?_
    cases ps with
    | nil => exact hnil rfl
    | cons p ps =>
      obtain ⟨hp, hps⟩ := List.forall_mem_cons.mp hp
      cases p with
      | char c => exact hchar c ps rfl
      | low u =>
        have hlt := (exists_low_of_flatMap_utf16 ⟨by have := hp.1; omega, hp.2⟩ he).1
        exact absurd hp.1 (by omega)
      | high u =>
        obtain ⟨-, l, vs, hl, hlow⟩ :=
          exists_low_of_flatMap_utf16 ⟨hp.1, by have := hp.2; omega⟩ he
        cases ps with
        | nil => cases hl
        | cons q ps =>
          obtain rfl := Piece.eq_low_of_units (List.forall_mem_cons.mp hps).1 hlow hl
          exact hpair u l ps rfl

theorem hexValue?_of_isHexDigit (h : IsHexDigit c n) : hexValue? c = some n := by
  have hall : ∀ n < 16, hexValue? (Nat.digitChar n) = some n ∧
      hexValue? (Nat.digitChar n).toUpper = some n := by decide
  obtain ⟨hlower, hupper⟩ := hall n h.1
  rcases h.2 with rfl | rfl
  · exact hlower
  · exact hupper

/-- A literal is read up to its closing quote. -/
theorem readString_of_literal (h : Literal us s) (rest : List Char) :
    ∃ ps, readString (s ++ '\x22' :: rest) = some (ps, rest) ∧
      ps.flatMap Piece.units = us ∧ ∀ p ∈ ps, p.Proper := by
  induction h with
  | nil => exact ⟨[], by simp [readString], rfl, nofun⟩
  | @plain c us s hc hq hb _ ih =>
    obtain ⟨ps, hr, hu, hp⟩ := ih
    refine ⟨.char c :: ps, ?_, by rw [List.flatMap_cons, hu]; rfl,
      List.forall_mem_cons.mpr ⟨trivial, hp⟩⟩
    simp [readString, hq, hb, hr, Nat.not_lt.mpr hc]
  | @escape e c us s he _ ih =>
    obtain ⟨ps, hr, hu, hp⟩ := ih
    refine ⟨.char c :: ps, ?_, by rw [List.flatMap_cons, hu]; rfl,
      List.forall_mem_cons.mpr ⟨trivial, hp⟩⟩
    simp only [escapes, List.mem_cons, Prod.mk.injEq, List.not_mem_nil, or_false] at he
    rcases he with ⟨rfl, rfl⟩ | ⟨rfl, rfl⟩ | ⟨rfl, rfl⟩ | ⟨rfl, rfl⟩ | ⟨rfl, rfl⟩ | ⟨rfl, rfl⟩ |
      ⟨rfl, rfl⟩ | ⟨rfl, rfl⟩ <;> simp [readString, unescape?, hr]
  | @unit w x y z i j k l us s hw hx hy hz _ ih =>
    obtain ⟨ps, hr, hu, hp⟩ := ih
    have hunit : unit? w x y z = some (((i * 16 + j) * 16 + k) * 16 + l) := by
      simp [unit?, hexValue?_of_isHexDigit hw, hexValue?_of_isHexDigit hx,
        hexValue?_of_isHexDigit hy, hexValue?_of_isHexDigit hz]
    have hlt : ((i * 16 + j) * 16 + k) * 16 + l < 0x10000 := by
      have := hw.1
      have := hx.1
      have := hy.1
      have := hz.1
      omega
    obtain ⟨hproper, hunits⟩ := Piece.ofUnit_proper hlt
    refine ⟨.ofUnit _ :: ps, ?_, ?_, List.forall_mem_cons.mpr ⟨hproper, hp⟩⟩
    · simp [readString, hunit, hr]
    · rw [List.flatMap_cons, hunits, hu]
      rfl

/-- The token of a string literal. -/
theorem readToken_of_spellsString {text : Option String} (h : SpellsString text s)
    (rest : List Char) : ∃ body, s = '\x22' :: body ∧
      readToken '\x22' (body ++ rest) = some (.string text, rest) := by
  cases h with
  | @text t s h =>
    obtain ⟨ps, hr, hu, hp⟩ := readString_of_literal h rest
    refine ⟨_, rfl, ?_⟩
    have ha : assemble ps = some t := (assemble_eq_some_iff hp).mpr hu.symm
    simp [readToken, punctuation?, hr, ha]
  | @garbled us s h hn =>
    obtain ⟨ps, hr, hu, hp⟩ := readString_of_literal h rest
    refine ⟨_, rfl, ?_⟩
    have ha : assemble ps = none :=
      Option.eq_none_iff_forall_ne_some.mpr fun t ht =>
        hn t (((assemble_eq_some_iff hp).mp ht).trans hu)
    simp [readToken, punctuation?, hr, ha]

theorem Digits.singleton (hc : c.isDigit = true) : Digits [c] :=
  ⟨List.cons_ne_nil _ _, List.forall_mem_singleton.mpr hc⟩

theorem Digits.all (h : Digits s) : s.all Char.isDigit = true := List.all_eq_true.mpr h.2

theorem Digits.exists_cons (h : Digits s) : ∃ c rest, s = c :: rest ∧ c.isDigit = true := by
  obtain ⟨c, rest, rfl⟩ := List.exists_cons_of_ne_nil h.1
  exact ⟨c, rest, rfl, h.2 c List.mem_cons_self⟩

theorem ne_of_isDigit (hc : c.isDigit = true) (hd : d.isDigit = false) : c ≠ d := by
  rintro rfl
  exact Bool.noConfusion (hc.symm.trans hd)

/-- An exponent as its marker, its sign and its digits. -/
theorem isExponent_of_digits {e : Char} {sign ds : List Char} (he : e = 'e' ∨ e = 'E')
    (hs : sign = [] ∨ sign = ['+'] ∨ sign = ['-']) (hd : Digits ds) :
    isExponent (e :: (sign ++ ds)) = true := by
  have hdigits : ((if (sign ++ ds).head? = some '-' ∨ (sign ++ ds).head? = some '+' then
      (sign ++ ds).drop 1 else sign ++ ds) : List Char) = ds := by
    rcases hs with rfl | rfl | rfl
    · obtain ⟨c, rest, rfl, hc⟩ := hd.exists_cons
      exact if_neg (by simp [ne_of_isDigit hc])
    · rfl
    · rfl
  have hempty : ds.isEmpty = false := List.isEmpty_eq_false_iff.mpr hd.1
  rw [isExponent, hdigits, hempty, hd.all]
  rcases he with rfl | rfl <;> rfl

variable {sign whole fraction exponent : List Char}

theorem isExponent_of_exponent (he : exponent = [] ∨ ∃ e sign ds, (e = 'e' ∨ e = 'E') ∧
      (sign = [] ∨ sign = ['+'] ∨ sign = ['-']) ∧ Digits ds ∧ exponent = e :: (sign ++ ds)) :
    isExponent exponent = true ∧ ∀ c ∈ exponent.head?, c = 'e' ∨ c = 'E' := by
  rcases he with rfl | ⟨e, sign, ds, he, hs, hd, rfl⟩
  · exact ⟨rfl, nofun⟩
  · refine ⟨isExponent_of_digits he hs hd, fun c hc => ?_⟩
    cases hc
    exact he

theorem isFraction_of_parts (hf : fraction = [] ∨ ∃ ds, Digits ds ∧ fraction = '.' :: ds)
    (he : isExponent exponent = true ∧ ∀ c ∈ exponent.head?, c = 'e' ∨ c = 'E') :
    isFraction (fraction ++ exponent) = true ∧
      ∀ c ∈ (fraction ++ exponent).head?, c.isDigit = false := by
  have hhead : ∀ c ∈ exponent.head?, c.isDigit = false := by
    intro c hc
    rcases he.2 c hc with rfl | rfl <;> decide
  rcases hf with rfl | ⟨ds, hd, rfl⟩
  · refine ⟨?_, hhead⟩
    cases exponent with
    | nil => rfl
    | cons c rest =>
      have hne : c ≠ '.' := by rcases he.2 c rfl with rfl | rfl <;> decide
      rw [List.nil_append, isFraction, if_neg hne]
      exact he.1
  · refine ⟨?_, fun c hc => ?_⟩
    · obtain ⟨ht, hdrop⟩ := Lexing.span_append hd.2 hhead
      have hempty : ds.isEmpty = false := List.isEmpty_eq_false_iff.mpr hd.1
      rw [List.cons_append, isFraction, if_pos rfl, ht, hdrop, hempty, he.1]
      rfl
    · cases hc
      decide

theorem digits_of_whole (hw : whole = ['0'] ∨ Digits whole ∧ whole.head? ≠ some '0') :
    Digits whole := by
  rcases hw with rfl | ⟨hw, -⟩
  · exact .singleton rfl
  · exact hw

theorem isNumber_of_numberText (h : NumberText s) : isNumber s = true := by
  cases h with
  | @mk sign whole fraction exponent hs hw hf he =>
    obtain ⟨hfraction, hhead⟩ := isFraction_of_parts hf (isExponent_of_exponent he)
    have hwhole := digits_of_whole hw
    obtain ⟨ht, hd⟩ := Lexing.span_append hwhole.2 hhead
    have hunsigned : ((if (sign ++ (whole ++ (fraction ++ exponent))).head? = some '-' then
        (sign ++ (whole ++ (fraction ++ exponent))).drop 1
        else sign ++ (whole ++ (fraction ++ exponent))) : List Char) =
          whole ++ (fraction ++ exponent) := by
      rcases hs with rfl | rfl
      · obtain ⟨c, rest, rfl, hc⟩ := hwhole.exists_cons
        exact if_neg (by simpa using ne_of_isDigit hc rfl)
      · rfl
    rw [isNumber, hunsigned, ht, hd, hfraction, Bool.and_true, Bool.or_eq_true]
    rcases hw with rfl | ⟨hw, hz⟩
    · exact Or.inl rfl
    · refine Or.inr ?_
      rw [List.isEmpty_eq_false_iff.mpr hw.1]
      simpa using hz

theorem isNumberChar_of_isDigit (hc : c.isDigit = true) : isNumberChar c = true := by
  simp [isNumberChar, hc]

/-- A number begins with a digit or a minus sign and has no other characters than numbers have. -/
theorem NumberText.exists_cons (h : NumberText s) :
    ∃ c body, s = c :: body ∧ (c.isDigit = true ∨ c = '-') ∧ ∀ d ∈ body, isNumberChar d = true := by
  cases h with
  | @mk sign whole fraction exponent hs hw hf he =>
    have hdigits {ds : List Char} (h : Digits ds) : ∀ d ∈ ds, isNumberChar d = true :=
      fun d hd => isNumberChar_of_isDigit (h.2 d hd)
    have hwhole := digits_of_whole hw
    have hrest : ∀ d ∈ fraction ++ exponent, isNumberChar d = true := by
      refine List.forall_mem_append.mpr ⟨?_, ?_⟩
      · rcases hf with rfl | ⟨ds, hd, rfl⟩
        · nofun
        · exact List.forall_mem_cons.mpr ⟨rfl, hdigits hd⟩
      · rcases he with rfl | ⟨e, sign, ds, he, hs, hd, rfl⟩
        · nofun
        · refine List.forall_mem_cons.mpr ⟨by rcases he with rfl | rfl <;> rfl,
            List.forall_mem_append.mpr ⟨?_, hdigits hd⟩⟩
          rcases hs with rfl | rfl | rfl
          · nofun
          · exact List.forall_mem_singleton.mpr rfl
          · exact List.forall_mem_singleton.mpr rfl
    have hall := List.forall_mem_append.mpr ⟨hdigits hwhole, hrest⟩
    rcases hs with rfl | rfl
    · obtain ⟨c, body, rfl, hc⟩ := hwhole.exists_cons
      exact ⟨c, _, rfl, Or.inl hc, (List.forall_mem_cons.mp hall).2⟩
    · exact ⟨'-', _, rfl, Or.inr rfl, hall⟩

/-- The token of a number, where no character follows that could belong to it. -/
theorem readToken_of_numberText (h : NumberText s)
    (hr : ∀ c ∈ rest.head?, isNumberChar c = false) : ∃ c body, s = c :: body ∧
      (c.isDigit = true ∨ c = '-') ∧
      readToken c (body ++ rest) = some (.atom (.number (String.ofList s)), rest) := by
  obtain ⟨c, body, rfl, hc, hbody⟩ := h.exists_cons
  obtain ⟨ht, hd⟩ := Lexing.span_append hbody hr
  refine ⟨c, body, rfl, hc, ?_⟩
  have hnone : punctuation? c = none ∧ c ≠ '\x22' ∧ literal? c = none := by
    rcases hc with hc | rfl
    · have hne (d : Char) (hd : d.isDigit = false) : c ≠ d := ne_of_isDigit hc hd
      refine ⟨?_, hne _ rfl, ?_⟩
      · simp [punctuation?, hne '{' rfl, hne '}' rfl, hne '[' rfl, hne ']' rfl, hne ',' rfl,
          hne ':' rfl]
      · simp [literal?, hne 'n' rfl, hne 't' rfl, hne 'f' rfl]
    · decide
  rw [readToken, hnone.1, if_neg hnone.2.1, hnone.2.2]
  dsimp only
  rw [ht, hd, if_pos (isNumber_of_numberText h)]

end Descent.Json
