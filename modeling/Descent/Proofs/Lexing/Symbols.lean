import Descent.Lexing.Tokenize
import Descent.Proofs.Lexing.Substitution

/-!
The symbols of lexemes are all that a lexical analysis takes from the identifiers and numbers that
were registered before it.
-/
namespace Descent

/-- The lexeme without its symbol. -/
def Lexeme.anonymous (x : Lexeme) : Lexeme := { x with symbol := 0 }

namespace Lexing

open Lexicon (SameTerminals)
open Text (Position isBlank isLetter isWordChar)

variable {l l' : Lexicon} {p : Position} {c : Char} {rest text : List Char} {x y : Lexeme}
  {xs ys : List Lexeme}

/-- Two readings of the same token, or the same fault. -/
inductive Reading.Alike : Reading → Reading → Prop
  | token {x y : Lexeme} {l l' : Lexicon} {rest : List Char} (hx : x.anonymous = y.anonymous)
      (hl : SameTerminals l l') : Alike (.token x l rest) (.token y l' rest)
  | fault {f : Fault} {l l' : Lexicon} (hl : SameTerminals l l') : Alike (.fault f l) (.fault f l')

theorem alike_register (hl : SameTerminals l l') (literal : Literal) :
    SameTerminals (register l literal).1 (register l' literal).1 ∧
      (register l literal).2.1 = (register l' literal).2.1 := by
  cases literal <;> exact ⟨⟨hl.words, hl.separators⟩, rfl⟩

theorem intruder?_congr (hl : SameTerminals l l') (text : List Char) :
    intruder? l' text = intruder? l text := by
  unfold intruder?
  rw [hl.separates]

theorem alike_readToken (hl : SameTerminals l l') (p : Position) (c : Char) (rest : List Char) :
    (readToken l p c rest).Alike (readToken l' p c rest) := by
  unfold readToken
  split
  · unfold readWord
    dsimp only
    rw [hl.words]
    split
    · exact .token rfl hl
    · exact .token rfl ⟨hl.words, hl.separators⟩
  · split
    · unfold readNumeral
      dsimp only
      split
      · exact .fault hl
      · rename_i literal _
        obtain ⟨hr, hk⟩ := alike_register hl literal
        rw [intruder?_congr hr]
        split
        · exact .fault hr
        · refine .token ?_ hr
          rw [← hk]
          rfl
    · rw [hl.separators]
      split
      · exact .token rfl hl
      · exact .fault hl

/-- Two scans from lexicons with the same words and separators. -/
theorem alike_scan (hl : SameTerminals l l') (p : Position) (text : List Char) :
    (scan l p text).lexemes.map Lexeme.anonymous = (scan l' p text).lexemes.map Lexeme.anonymous ∧
      (scan l p text).fault = (scan l' p text).fault := by
  fun_induction scan l p text generalizing l' with
  | case1 => simp
  | case2 l p c rest hb ih =>
    rw [scan_blank hb]
    exact ih hl
  | case3 l p c rest hb f m h =>
    have ha := alike_readToken hl p c rest
    generalize h' : readToken l' p c rest = r at ha
    rw [h] at ha
    cases ha with
    | fault _ => exact scan_fault (by simpa using hb) h' ▸ ⟨rfl, rfl⟩
  | case4 l p c rest hb x m after h ih =>
    have ha := alike_readToken hl p c rest
    generalize h' : readToken l' p c rest = r at ha
    rw [h] at ha
    cases ha with
    | @token _ y _ m' _ hx hm =>
      have hn : y.next = x.next := (congrArg Lexeme.next hx).symm
      obtain ⟨hxs, hf⟩ := ih hm
      rw [scan_token (by simpa using hb) h', hn]
      exact ⟨congrArg₂ List.cons hx hxs, hf⟩

/-- The same lexemes but for their symbols. -/
abbrev Alike (xs ys : List Lexeme) : Prop := xs.map Lexeme.anonymous = ys.map Lexeme.anonymous

theorem Alike.map {α : Type} (h : Alike xs ys) (f : Lexeme → α)
    (hf : ∀ x : Lexeme, f x.anonymous = f x) : xs.map f = ys.map f := by
  have := congrArg (List.map f) h
  simpa [Function.comp_def, hf] using this

theorem comparable_anonymous : Comparable (fun x y => x.anonymous = y.anonymous) Eq where
  text {x y} h := show x.anonymous.text = y.anonymous.text by rw [h]
  first {x y} h := show x.anonymous.first = y.anonymous.first by rw [h]
  start := rfl
  pinned h _ _ _ := by rw [h]

theorem alike_substitute (hl : SameTerminals l l') (rules : List Substitution) (h : Alike xs ys) :
    Alike (substitute l rules xs).lexemes (substitute l' rules ys).lexemes ∧
      (substitute l rules xs).fault = (substitute l' rules ys).fault := by
  obtain ⟨hx, hf⟩ := concur_substitute comparable_anonymous hl rules (forall₂_view_iff.mpr h)
  refine ⟨forall₂_view_iff.mp hx, ?_⟩
  generalize (substitute l rules xs).fault = o, (substitute l' rules ys).fault = o' at hf
  cases hf with
  | none => rfl
  | @some f f' hf =>
    obtain ⟨hc, hp⟩ := hf
    cases f
    cases f'
    cases hc
    cases hp
    rfl

theorem alike_tokenize (hl : SameTerminals l l') (rules : LexicalRules) (source : String) :
    Alike (tokenize rules l source).lexemes (tokenize rules l' source).lexemes ∧
      (tokenize rules l source).fault = (tokenize rules l' source).fault := by
  unfold tokenize
  split
  · exact ⟨rfl, rfl⟩
  · rename_i text _
    obtain ⟨hs, hf⟩ := alike_scan hl .start text
    dsimp only
    rw [← hf]
    split
    · exact ⟨hs, rfl⟩
    · have hg := (grows_scan l .start text).toSameTerminals
      have hg' := (grows_scan l' .start text).toSameTerminals
      obtain ⟨hr, hf⟩ := alike_substitute ((hg.symm.trans hl).trans hg') rules.substitutions hs
      rw [← hf]
      split <;> exact ⟨hr, rfl⟩

end Lexing

end Descent
