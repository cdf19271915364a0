import Descent.Analysis
import Descent.Proofs.Lexing.Numerals
import Descent.Proofs.Lexing.Steps
import Descent.Proofs.Text.Places

/-!
How lexemes lie in a text: one after another, each at its place and as long as a token there can be,
with blanks between them.
-/
namespace Descent.Lexing

open Lexicon (SameTerminals)
open Text (Position isBlank isLetter isWordChar)

variable {rules : LexicalRules} {l l' : Lexicon} {p : Position} {c : Char}
  {text rest pre post : List Char} {x : Lexeme} {xs : List Lexeme}

/-- A word is a letter and what goes on from there, and nothing goes on after it. -/
structure IsWholeWord (text rest : List Char) : Prop where
  begins : ∃ c ∈ text.head?, isLetter c = true
  goesOn : ∀ c ∈ text, isWordChar c = true
  ends : ∀ c ∈ rest.head?, isWordChar c = false

/-- A lexeme has the text of a token of its category that is complete where `rest` comes next. -/
def Whole (rules : LexicalRules) (x : Lexeme) (rest : List Char) : Prop :=
  match x.category with
  | .word | .identifier =>
    IsWholeWord x.text.toList rest ∧ (x.category = .word ↔ x.text ∈ rules.words)
  | .separator => ∃ c : Char, x.text = c.toString ∧ c.toString ∈ rules.separators
  | .integer | .real =>
    IsLongestNumeral x.text.toList rest ∧
      ∀ c ∈ rest.head?, isBlank c = true ∨ c.toString ∈ rules.separators

/-- The visible text of a lexeme fills its columns from a place on. -/
structure StandsAt (x : Lexeme) (p : Position) : Prop where
  first : x.first = p
  last : x.lastColumn + 1 = p.column + x.text.toList.length
  ne_nil : x.text.toList ≠ []
  visible : ∀ c ∈ x.text.toList, isBlank c = false

/-- Lexemes that lie in a text whose first character stands at `p`. -/
inductive Laid (rules : LexicalRules) : Position → List Char → List Lexeme → Prop
  | nil {p : Position} : Laid rules p [] []
  | blank {p : Position} {c : Char} {rest : List Char} {xs : List Lexeme} (hb : isBlank c = true)
      (h : Laid rules (p.advance c) rest xs) : Laid rules p (c :: rest) xs
  | token {p : Position} {x : Lexeme} {rest : List Char} {xs : List Lexeme} (hx : StandsAt x p)
      (hw : Whole rules x rest) (h : Laid rules x.next rest xs) :
      Laid rules p (x.text.toList ++ rest) (x :: xs)

theorem find?_words (h : SameTerminals rules.lexicon l) {t : String} :
    (l.words.find? t).isSome ↔ t ∈ rules.words := by
  rw [SymbolTable.isSome_find?, h.words]
  exact SymbolTable.mem_ofList

theorem find?_separators (h : SameTerminals rules.lexicon l) {t : String} :
    (l.separators.find? t).isSome ↔ t ∈ rules.separators := by
  rw [SymbolTable.isSome_find?, h.separators]
  exact SymbolTable.mem_ofList

/-- What may come after a numeral is a blank or a separator. -/
theorem intruder?_eq_none_iff_atoms : intruder? l text = none ↔
    ∀ c ∈ text.head?, isBlank c = true ∨ c.toString ∈ l.separators.atoms := by
  cases text with
  | nil => simp [intruder?]
  | cons c rest =>
    have hi : intruder? l (c :: rest) = none ↔ (isBlank c || l.separates c) = true := by
      cases hc : isBlank c || l.separates c <;> simp [intruder?, hc]
    rw [hi, Bool.or_eq_true, Lexicon.separates, SymbolTable.isSome_find?]
    simp

theorem intruder?_eq_none_iff (h : SameTerminals rules.lexicon l) : intruder? l text = none ↔
    ∀ c ∈ text.head?, isBlank c = true ∨ c.toString ∈ rules.separators := by
  simp only [intruder?_eq_none_iff_atoms, ← SymbolTable.isSome_find?, find?_separators h]

theorem intruder?_eq_some_iff : intruder? l text = some c ↔
    ∃ post, text = c :: post ∧ isBlank c = false ∧ l.separates c = false := by
  cases text with
  | nil => simp [intruder?]
  | cons d post =>
    constructor
    · intro hi
      unfold intruder? at hi
      dsimp only at hi
      split at hi
      · cases hi
      · rename_i hd
        cases hi
        obtain ⟨hb, hs⟩ := not_or.mp (mt Bool.or_eq_true_iff.mpr hd)
        exact ⟨post, rfl, Bool.eq_false_iff.mpr hb, Bool.eq_false_iff.mpr hs⟩
    · rintro ⟨post, he, hb, hs⟩
      cases he
      simp [intruder?, hb, hs]

theorem exists_of_intruder? (h : SameTerminals rules.lexicon l) (hi : intruder? l text = some c) :
    ∃ post, text = c :: post ∧ isBlank c = false ∧ c.toString ∉ rules.separators := by
  obtain ⟨post, he, hb, hs⟩ := intruder?_eq_some_iff.mp hi
  refine ⟨post, he, hb, mt (find?_separators h).mpr ?_⟩
  rw [← Lexicon.separates, hs]
  exact Bool.false_ne_true

theorem toList_spanning (category : Category) (i : Nat) (token : List Char) (p : Position) :
    (Lexeme.spanning category i token p).text.toList = token := String.toList_ofList

theorem standsAt_spanning {category : Category} {i : Nat} {token : List Char} (hne : token ≠ [])
    (hv : ∀ c ∈ token, isBlank c = false) :
    StandsAt (.spanning category i token p) p := by
  have hlen : 0 < token.length := List.length_pos_iff.mpr hne
  refine ⟨rfl, ?_, by rwa [toList_spanning], by rwa [toList_spanning]⟩
  rw [toList_spanning]
  change p.column + token.length - 1 + 1 = _
  omega

theorem isWholeWord_takeWhile (hc : isLetter c = true) (rest : List Char) :
    IsWholeWord ((c :: rest).takeWhile isWordChar) ((c :: rest).dropWhile isWordChar) where
  begins := ⟨c, by simp [Text.isWordChar_of_isLetter hc], hc⟩
  goesOn _ := List.mem_takeWhile_imp
  ends d hd := by
    have := List.head?_dropWhile_not isWordChar (c :: rest)
    rw [Option.mem_def.mp hd] at this
    simpa using this

theorem IsWholeWord.visible (h : IsWholeWord text rest) : ∀ c ∈ text, isBlank c = false :=
  fun c hc => Text.not_isBlank_of_isWordChar (h.goesOn c hc)

theorem IsWholeWord.ne_nil (h : IsWholeWord text rest) : text ≠ [] := by
  rintro rfl
  obtain ⟨c, hc, -⟩ := h.begins
  cases hc

theorem whole_of_isNumber (hx : x.category.isNumber = true)
    (hn : IsLongestNumeral x.text.toList rest)
    (hr : ∀ c ∈ rest.head?, isBlank c = true ∨ c.toString ∈ rules.separators) :
    Whole rules x rest := by
  unfold Whole
  cases hc : x.category with
  | word | separator | identifier => simp [hc, Category.isNumber] at hx
  | integer | real => exact ⟨hn, hr⟩

/-- What a reading takes is a whole token, and the rest of the text comes next. -/
theorem whole_of_readToken (h : SameTerminals rules.lexicon l) (hb : isBlank c = false)
    (hr : readToken l p c rest = .token x l' text) :
    c :: rest = x.text.toList ++ text ∧ StandsAt x p ∧ Whole rules x text := by
  cases readToken_cases hr with
  | word hc hf =>
    have hw := isWholeWord_takeWhile hc rest
    have hm := (find?_words h).mp (Option.isSome_of_eq_some hf)
    refine ⟨?_, standsAt_spanning hw.ne_nil hw.visible, ?_, ?_⟩
    · rw [toList_spanning, List.takeWhile_append_dropWhile]
    · rwa [toList_spanning]
    · exact iff_of_true rfl hm
  | identifier hc hn hf =>
    subst hn
    have hw := isWholeWord_takeWhile hc rest
    have hm := mt (find?_words h).mpr (by rw [hf]; exact Bool.false_ne_true)
    refine ⟨?_, standsAt_spanning hw.ne_nil hw.visible, ?_, ?_⟩
    · rw [toList_spanning, List.takeWhile_append_dropWhile]
    · rwa [toList_spanning]
    · exact iff_of_false (by simp [Lexeme.spanning]) hm
  | @number n after literal hc hd hn hv hi =>
    obtain ⟨hproper, hlongest, happend⟩ := longest_of_read hd hn
    have hs := h.trans (grows_register l literal).toSameTerminals
    refine ⟨?_, standsAt_spanning hproper.text_ne_nil fun _ => hproper.not_isBlank_of_mem,
      whole_of_isNumber (isNumber_register l literal) ?_ ((intruder?_eq_none_iff hs).mp hi)⟩
    · rw [toList_spanning]
      exact happend.symm
    · rwa [toList_spanning]
  | separator hc hd hf =>
    refine ⟨?_, standsAt_spanning (List.cons_ne_nil _ _) (by simpa using hb), ?_⟩
    · rw [toList_spanning]
      rfl
    · exact ⟨c, rfl, (find?_separators h).mp (Option.isSome_of_eq_some hf)⟩

/-- The lexemes of a scan that comes to its end lie in the text. -/
theorem laid_scan (h : SameTerminals rules.lexicon l) (hf : (scan l p text).fault = none) :
    Laid rules p text (scan l p text).lexemes := by
  fun_induction scan l p text with
  | case1 => exact .nil
  | case2 l p c rest hb ih => exact .blank hb (ih h hf)
  | case3 => cases hf
  | case4 l p c rest hb x l' rest' hr ih =>
    have hgrows := grows_readToken l p c rest
    rw [hr] at hgrows
    obtain ⟨he, hx, hw⟩ := whole_of_readToken h (by simpa using hb) hr
    rw [he]
    exact .token hx hw (ih (h.trans hgrows.toSameTerminals) hf)

theorem StandsAt.not_mem_newline (h : StandsAt x p) : '\n' ∉ x.text.toList :=
  fun hm => absurd (h.visible '\n' hm) (by decide)

theorem StandsAt.through (h : StandsAt x p) : p.through x.text.toList = x.next := by
  rw [Position.through_of_not_mem h.not_mem_newline, ← h.last, ← h.first]
  rfl

/-- The place lies in the columns of the lexeme. -/
def Covers (x : Lexeme) (p : Position) : Prop :=
  x.line = p.line ∧ x.firstColumn ≤ p.column ∧ p.column ≤ x.lastColumn

theorem last_lt_next (x : Lexeme) : x.last < x.next := Or.inr ⟨rfl, Nat.lt_succ_self _⟩

theorem StandsAt.lt_next (h : StandsAt x p) : p < x.next := by
  have hlen := List.length_pos_iff.mpr h.ne_nil
  have hlast := h.last
  rw [← h.first] at hlast ⊢
  right
  change x.line = x.line ∧ x.firstColumn < x.lastColumn + 1
  change x.lastColumn + 1 = x.firstColumn + _ at hlast
  omega

theorem StandsAt.covers (h : StandsAt x p) (hpre : pre ++ c :: rest = x.text.toList) :
    Covers x (p.through pre) := by
  have hn : '\n' ∉ pre := fun hm => h.not_mem_newline (hpre ▸ List.mem_append_left _ hm)
  have hlast := h.last
  rw [← hpre, List.length_append, List.length_cons] at hlast
  have hfirst := h.first
  subst hfirst
  rw [Position.through_of_not_mem hn]
  change x.lastColumn + 1 = x.firstColumn + _ at hlast
  exact ⟨rfl, Nat.le_add_right _ _, by change x.firstColumn + _ ≤ _; omega⟩

namespace Laid

theorem le_first (h : Laid rules p text xs) : ∀ x ∈ xs, p ≤ x.first := by
  induction h with
  | nil => nofun
  | blank hb _ ih =>
    intro x hx
    exact Position.le_trans (Position.le_of_lt (Position.lt_advance _ _)) (ih x hx)
  | token hy _ _ ih =>
    intro x hx
    rcases List.mem_cons.mp hx with rfl | hx
    · exact hy.first ▸ Position.le_refl _
    · exact Position.le_trans (Position.le_of_lt hy.lt_next) (ih x hx)

/-- Later lexemes lie past the last column of earlier ones. -/
theorem pairwise (h : Laid rules p text xs) : xs.Pairwise fun x y => x.last < y.first := by
  induction h with
  | nil => exact .nil
  | blank _ _ ih => exact ih
  | token _ _ h ih =>
    refine .cons (fun y hy => ?_) ih
    exact Position.lt_of_lt_of_le (last_lt_next _) (h.le_first y hy)

/-- Every character of the text is a blank or belongs to a lexeme. -/
theorem covers (h : Laid rules p text xs) (ht : text = pre ++ c :: rest) :
    isBlank c = true ∨ ∃ x ∈ xs, Covers x (p.through pre) := by
  induction h generalizing pre with
  | nil => exact absurd ht (by simp)
  | blank hb _ ih =>
    cases pre with
    | nil =>
      cases ht
      exact Or.inl hb
    | cons d pre =>
      cases ht
      exact ih rfl
  | @token p x after xs hx _ _ ih =>
    have hlater (front : List Char) (hafter : after = front ++ c :: rest) :
        isBlank c = true ∨ ∃ y ∈ x :: xs, Covers y (p.through (x.text.toList ++ front)) := by
      rw [Position.through_append, hx.through]
      exact (ih hafter).imp_right fun ⟨y, hy, hc⟩ => ⟨y, List.mem_cons_of_mem x hy, hc⟩
    rcases List.append_eq_append_iff.mp ht with ⟨front, rfl, hafter⟩ | ⟨back, hpre, hback⟩
    · exact hlater front hafter
    · cases back with
      | nil =>
        rw [List.append_nil] at hpre
        have := hlater [] hback.symm
        rwa [List.append_nil, hpre] at this
      | cons d back =>
        cases hback
        exact Or.inr ⟨x, List.mem_cons_self, hx.covers hpre.symm⟩

/-- Every lexeme stands in the text where its place says, whole with what comes after it. -/
theorem exists_append (h : Laid rules p text xs) : ∀ x ∈ xs, ∃ pre post,
    text = pre ++ (x.text.toList ++ post) ∧ StandsAt x (p.through pre) ∧ Whole rules x post := by
  induction h with
  | nil => nofun
  | blank hb _ ih =>
    intro x hx
    obtain ⟨pre, post, rfl, hs, hw⟩ := ih x hx
    exact ⟨_ :: pre, post, rfl, hs, hw⟩
  | @token p y rest xs hy hw _ ih =>
    intro x hx
    rcases List.mem_cons.mp hx with rfl | hx
    · exact ⟨[], rest, rfl, hy, hw⟩
    · obtain ⟨pre, post, rfl, hs, hw⟩ := ih x hx
      refine ⟨y.text.toList ++ pre, post, by simp, ?_, hw⟩
      rwa [Position.through_append, hy.through]

end Laid

end Descent.Lexing
