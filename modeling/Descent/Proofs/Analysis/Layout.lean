import Descent.Proofs.Analysis.History
import Descent.Proofs.Lexing.Spacing

/-!
The layout of a text. An analysis sees the tokens and not the blanks and comments between them, so
the tokens of a text may be set apart and moved in any way.
-/
namespace Descent

open Lexicon (SameTerminals)
open Lexing (Comparable Fault IsLayout SameCause Uncommented scan stripComments tokenize)
open Parse (Token parse)
open Text (isBlank unifyLines)

variable {g : Grammar} {l l' : Lexicon} {xs ys : List Lexeme} {rules : LexicalRules}
  {source source' : String} {stripped : List Char}

theorem comparable_unplaced : Comparable (fun x y => x.unplaced = y.unplaced) fun _ _ => True where
  text {x y} h := show x.unplaced.text = y.unplaced.text by rw [h]
  first _ := trivial
  start := trivial
  pinned _ _ _ _ := rfl

/-- A match does not look at places. -/
theorem parse_unplaced (h : xs.map Lexeme.unplaced = ys.map Lexeme.unplaced) :
    parse g l xs = parse g l ys := by
  have ht := congrArg (List.map (Token.ofLexeme l)) h
  rw [List.map_map, List.map_map] at ht
  exact Parse.parse_congr ht

section Tokenize

variable (hl : SameTerminals rules.lexicon l)
  (hb : ∀ style ∈ rules.comments, ∀ c ∈ style.opening.toList, isBlank c = false)
  (hc : stripComments rules.comments (unifyLines source.toList) = .ok stripped)
  (hf : (scan l .start stripped).fault = none)
  (hs : IsLayout ((scan l .start stripped).lexemes.map (·.text.toList)) source'.toList)

include hl hb hc hf hs

/-- The tokens make a text without comments, in which they are scanned anew. -/
theorem scan_layout : ∃ spaced,
    stripComments rules.comments (unifyLines source'.toList) = .ok spaced ∧
      (scan l .start spaced).fault = none ∧
      (scan l .start spaced).lexicon = (scan l .start stripped).lexicon ∧
      (scan l .start spaced).lexemes.map Lexeme.unplaced =
        (scan l .start stripped).lexemes.map Lexeme.unplaced := by
  have hpieces := (Lexing.laid_scan hl hf).exists_append
  have hnone := Lexing.uncommented_of_stripComments hc hb
  have htokens : ∀ t ∈ (scan l .start stripped).lexemes.map (·.text.toList),
      (∀ c ∈ t, isBlank c = false) ∧ Uncommented rules.comments t := by
    intro t ht
    obtain ⟨x, hx, rfl⟩ := List.mem_map.mp ht
    obtain ⟨_, _, he, hstands, -⟩ := hpieces x hx
    exact ⟨hstands.visible, Uncommented.of_append (he ▸ hnone)⟩
  have hspaced := (Lexing.spaced_of_isLayout (fun t ht => (htokens t ht).1) hs).unifyLines
  obtain ⟨hx, hlexicon, hfault⟩ := Lexing.scan_spaced hf hspaced .start
  have hstrip := Lexing.stripComments_of_uncommented
    (hspaced.uncommented hb fun t ht => (htokens t ht).2)
  exact ⟨_, hstrip, hfault, hlexicon, hx⟩

/-- Substitutions go the same way in both texts. -/
theorem tokenize_layout :
    (tokenize rules l source').lexemes.map Lexeme.unplaced =
        (tokenize rules l source).lexemes.map Lexeme.unplaced ∧
      (tokenize rules l source').lexicon = (tokenize rules l source).lexicon ∧
      Option.Rel (SameCause fun _ _ => True) (tokenize rules l source').fault
        (tokenize rules l source).fault ∧
      ∀ f ∈ (tokenize rules l source).fault, f.Unresolved := by
  obtain ⟨spaced, hc', hf', hlexicon, hx⟩ := scan_layout hl hb hc hf hs
  obtain ⟨hxs, hlex, hfault⟩ := Lexing.tokenize_scanned hc hf
  obtain ⟨hxs', hlex', hfault'⟩ := Lexing.tokenize_scanned hc' hf'
  have hrel := Lexing.concur_substitute comparable_unplaced (.refl (scan l .start stripped).lexicon)
    rules.substitutions (Lexing.forall₂_view_iff.mpr hx)
  rw [hxs, hlex, hfault, hxs', hlex', hfault', hlexicon]
  exact ⟨Lexing.forall₂_view_iff.mp hrel.1, rfl, hrel.2, fun f h =>
    Lexing.unresolved_substitute _ h⟩

end Tokenize

theorem analyze_unplaced (hx : (tokenize rules l source').lexemes.map Lexeme.unplaced =
      (tokenize rules l source).lexemes.map Lexeme.unplaced)
    (hl : (tokenize rules l source').lexicon = (tokenize rules l source).lexicon)
    (hf : (tokenize rules l source').fault = (tokenize rules l source).fault) :
    (analyze rules g l source').map Analysis.tree = (analyze rules g l source).map Analysis.tree := by
  have hparse : parse g (tokenize rules l source').lexicon (tokenize rules l source').lexemes =
      parse g (tokenize rules l source).lexicon (tokenize rules l source).lexemes := by
    rw [hl]
    exact parse_unplaced hx
  unfold analyze
  dsimp only
  rw [hparse, hf, Option.map_map, Option.map_map]
  rfl

/-- Where no delimiter of comments has a blank in it, the tokens of a text that can be scanned may be
set apart in any other way. The lexemes are the same but for their places, and so are the tables and
the tree; or else the substitutions stop at the same token, which is neither a word nor a
separator. -/
theorem layout_irrelevant (language : Language) {source source' : String} {stripped : List Char}
    (hb : ∀ style ∈ language.lexical.comments, ∀ c ∈ style.opening.toList, isBlank c = false)
    (hc : stripComments language.lexical.comments (unifyLines source.toList) = .ok stripped)
    (hf : (scan language.lexicon .start stripped).fault = none)
    (hs : IsLayout ((scan language.lexicon .start stripped).lexemes.map (·.text.toList))
      source'.toList) :
    let before := tokenize language.lexical language.lexicon source
    let after := tokenize language.lexical language.lexicon source'
    after.lexemes.map Lexeme.unplaced = before.lexemes.map Lexeme.unplaced ∧
      after.lexicon = before.lexicon ∧
      (before.fault = none ∧ after.fault = none ∧
          (language.analyze source').map Analysis.tree =
            (language.analyze source).map Analysis.tree ∨
        ∃ token, before.fault.map Fault.cause = some (.unresolvedToken token) ∧
          after.fault.map Fault.cause = some (.unresolvedToken token)) := by
  intro before after
  obtain ⟨hx, hl, hfault, hunresolved⟩ := tokenize_layout (.refl _) hb hc hf hs
  refine ⟨hx, hl, ?_⟩
  have htree (h : after.fault = before.fault) := analyze_unplaced (g := language.grammar) hx hl h
  change Option.Rel _ after.fault before.fault at hfault
  change ∀ f ∈ before.fault, _ at hunresolved
  generalize before.fault = o, after.fault = o' at hfault hunresolved htree
  cases hfault with
  | none => exact Or.inl ⟨rfl, rfl, htree rfl⟩
  | @some f' f hcause =>
    obtain ⟨token, ht⟩ := hunresolved f rfl
    exact Or.inr ⟨token, congrArg some ht, congrArg some (hcause.cause.trans ht)⟩

/-- A comment is all there is between two names, and the brackets touch them. In the other text
lines end in either way, and nothing touches. -/
theorem layout_irrelevant_lists :
    let language : Language := ⟨{ Parse.listsRules with comments := [⟨"/*", "*/"⟩] }, Parse.lists⟩
    let source := "(a/* ( */b)"
    let spread := "\r\n( a\tb\n)\r\n"
    (tokenize language.lexical language.lexicon spread).lexemes.map Lexeme.unplaced =
        (tokenize language.lexical language.lexicon source).lexemes.map Lexeme.unplaced ∧
      (language.analyze spread).map Analysis.tree = (language.analyze source).map Analysis.tree ∧
      (language.analyze source).map Analysis.isSuccess = some true := by
  intro language source spread
  have hb : ∀ style ∈ language.lexical.comments, ∀ c ∈ style.opening.toList, isBlank c = false := by
    have hall : language.lexical.comments.all (·.opening.toList.all (!isBlank ·)) = true := by
      decide +kernel
    simpa only [List.all_eq_true, Bool.not_eq_true'] using hall
  have hc : stripComments language.lexical.comments (unifyLines source.toList) =
      .ok "(a       b)".toList := by decide +kernel
  have hf : (scan language.lexicon .start "(a       b)".toList).fault = none := by decide +kernel
  have ht : (scan language.lexicon .start "(a       b)".toList).lexemes.map (·.text.toList) =
      [['('], ['a'], ['b'], [')']] := by decide +kernel
  have hs : IsLayout [['('], ['a'], ['b'], [')']] spread.toList := by
    refine ⟨[['\r', '\n'], [' '], ['\t'], ['\n']], ['\r', '\n'], rfl, by decide +kernel, ?_,
      by decide +kernel⟩
    have hall : [['\r', '\n'], ['\r', '\n'], [' '], ['\t'], ['\n']].all (·.all isBlank) = true := by
      decide +kernel
    simpa only [List.all_eq_true] using hall
  obtain ⟨hx, -, htrees⟩ := layout_irrelevant language hb hc hf (ht ▸ hs)
  refine ⟨hx, ?_, by decide +kernel⟩
  rcases htrees with ⟨-, -, htree⟩ | ⟨token, hfault, -⟩
  · exact htree
  · have hnone : (tokenize language.lexical language.lexicon source).fault = none := by
      decide +kernel
    rw [hnone] at hfault
    cases hfault

end Descent
