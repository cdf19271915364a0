import Descent.Proofs.Lexing.Blanking
import Descent.Proofs.Lexing.Layout

/-!
Lexemes are true to the source: each is spelled in its columns of its line, and nothing that shows
outside the comments is passed over.
-/
namespace Descent.Lexing

open Text (Position isBlank)

variable {rules : LexicalRules} {l : Lexicon} {source : String} {stripped text pre post : List Char}
  {x : Lexeme}

/-- The lexeme's text is what stands in its columns of its line, both counted from one. -/
structure SpelledIn (lines : List (List Char)) (x : Lexeme) : Prop where
  line : 1 ≤ x.line
  first : 1 ≤ x.firstColumn
  last : x.firstColumn ≤ x.lastColumn
  text : ∃ line, lines[x.line - 1]? = some line ∧ x.lastColumn ≤ line.length ∧
    (line.take x.lastColumn).drop (x.firstColumn - 1) = x.text.toList

theorem spelledIn_of_standsAt (h : StandsAt x (Position.after pre)) :
    SpelledIn ((pre ++ (x.text.toList ++ post)).splitOn '\n') x := by
  obtain ⟨hline, hcolumn, line, hget, hlength, hpiece⟩ :=
    Text.exists_line_of_append h.not_mem_newline h.first.symm post
  have hlast := h.last
  have hpos := List.length_pos_iff.mpr h.ne_nil
  rw [← h.first] at hlast
  change x.lastColumn + 1 = x.firstColumn + _ at hlast
  change 1 ≤ x.firstColumn at hcolumn
  change x.firstColumn - 1 + _ ≤ _ at hlength
  have hcount : x.lastColumn - (x.firstColumn - 1) = x.text.toList.length := by omega
  refine ⟨hline, hcolumn, by omega, line, hget, by omega, ?_⟩
  rw [List.drop_take, hcount]
  exact hpiece

/-- Without substitutions the lexemes are those of the scan. -/
theorem tokenize_eq_scan (hs : rules.substitutions = [])
    (hc : stripComments rules.comments (Text.unifyLines source.toList) = .ok stripped) :
    (tokenize rules l source).lexemes = (scan l .start stripped).lexemes ∧
      (tokenize rules l source).fault = (scan l .start stripped).fault := by
  unfold tokenize
  rw [hc, hs]
  dsimp only
  split
  · exact ⟨rfl, by simp_all⟩
  · exact ⟨rfl, by simp_all [substitute]⟩

/-- What the scan sees of the source, at the places it gives. -/
theorem spelledIn_lines
    (hb : List.Forall₂ Blanked (Text.unifyLines source.toList) (pre ++ (x.text.toList ++ post)))
    (hx : StandsAt x (Position.after pre)) : SpelledIn (Text.lines source.toList) x := by
  obtain ⟨pre', post', hsource, hplace⟩ := exists_append_of_blanked hb hx.visible
  have hne : Text.unifyLines source.toList ≠ [] := by
    rw [hsource]
    simp [hx.ne_nil]
  rw [← hplace] at hx
  rw [← Text.splitOn_unifyLines (Text.lines_ne_nil hne), hsource]
  exact spelledIn_of_standsAt hx

/-- A lexical analysis without substitutions that comes to its end loses nothing and invents
nothing: every lexeme is spelled in its columns of the source, later ones lie past earlier ones,
every character that is left without the comments is a blank or belongs to a lexeme, and every
lexeme is a whole token there. -/
theorem tokenize_faithful (rules : LexicalRules) (source : String)
    (hs : rules.substitutions = [])
    (hf : (tokenize rules rules.lexicon source).fault = none) :
    ∃ stripped, stripComments rules.comments (Text.unifyLines source.toList) = .ok stripped ∧
      (∀ x ∈ (tokenize rules rules.lexicon source).lexemes,
        SpelledIn (Text.lines source.toList) x) ∧
      (tokenize rules rules.lexicon source).lexemes.Pairwise (fun x y => x.last < y.first) ∧
      (∀ pre c post, stripped = pre ++ c :: post → isBlank c = true ∨
        ∃ x ∈ (tokenize rules rules.lexicon source).lexemes, Covers x (Position.after pre)) ∧
      ∀ x ∈ (tokenize rules rules.lexicon source).lexemes, ∃ pre post,
        stripped = pre ++ (x.text.toList ++ post) ∧ x.first = Position.after pre ∧
        Whole rules x post := by
  cases hc : stripComments rules.comments (Text.unifyLines source.toList) with
  | error f =>
    rw [tokenize, hc] at hf
    cases hf
  | ok stripped =>
    obtain ⟨hx, hfault⟩ := tokenize_eq_scan (l := rules.lexicon) hs hc
    have hlaid := laid_scan (.refl _) (hfault.symm.trans hf)
    rw [hx]
    have hpieces := hlaid.exists_append
    refine ⟨stripped, rfl, fun x hx => ?_, hlaid.pairwise, fun pre c post => hlaid.covers,
      fun x hx => ?_⟩
    · obtain ⟨pre, post, rfl, hx, -⟩ := hpieces x hx
      exact spelledIn_lines (blanked_of_stripComments hc) hx
    · obtain ⟨pre, post, he, hx, hw⟩ := hpieces x hx
      exact ⟨pre, post, he, hx.first, hw⟩

/-- Assignments, with comments between brackets of their own. -/
def assignments : LexicalRules where
  words := ["let"]
  separators := ["=", ";"]
  comments := [⟨"/*", "*/"⟩]

/-- A comment reaches over the end of a line. -/
def assignment : String := "let é/* à\r\nb */ = 12;\r\n"

theorem tokenize_faithful_assignment :
    (tokenize assignments assignments.lexicon assignment).lexemes.map
        (fun x => (x.text, x.line, x.firstColumn, x.lastColumn)) =
      [("let", 1, 1, 3), ("é", 1, 5, 5), ("=", 2, 6, 6), ("12", 2, 8, 9), (";", 2, 10, 10)] ∧
    ∀ x ∈ (tokenize assignments assignments.lexicon assignment).lexemes,
      SpelledIn ["let é/* à".toList, "b */ = 12;".toList] x := by
  have hf : (tokenize assignments assignments.lexicon assignment).fault = none := by decide +kernel
  have hl : Text.lines assignment.toList = ["let é/* à".toList, "b */ = 12;".toList] := by
    decide +kernel
  obtain ⟨stripped, -, hspelled, -⟩ := tokenize_faithful assignments assignment rfl hf
  rw [hl] at hspelled
  exact ⟨by decide +kernel, hspelled⟩

end Descent.Lexing
