import Descent.Analysis
import Descent.Proofs.Lexing.Coherence
import Descent.Proofs.Lexing.Symbols
import Descent.Proofs.Parse.Soundness

/-!
Analyses one after another with one lexicon. What earlier texts have left in it shows in the
symbols of later lexemes and nowhere else.
-/
namespace Descent

open Lexicon (SameTerminals)
open Lexing (Alike tokenize)
open Parse (Node Parsed Token Tree matcher parse ignoredNode?)

variable {g : Grammar} {l l' : Lexicon} {xs ys : List Lexeme} {rules : LexicalRules}

/-- All there is to see of an analysis but for the symbols of its lexemes. -/
structure Analysis.View where
  tree : Tree
  fault : Option Lexing.Fault
  lexemes : List Lexeme

def Analysis.view (a : Analysis) : Analysis.View :=
  ⟨a.tree, a.fault, a.lexemes.map Lexeme.anonymous⟩

/-- Analyzes texts in order, each with the lexicon that the one before it has left behind. -/
def Language.analyzeAll (language : Language) (lexicon : Lexicon) :
    List String → Option (List Analysis)
  | [] => some []
  | source :: rest => do
    let a ← Descent.analyze language.lexical language.grammar lexicon source
    let others ← language.analyzeAll a.lexicon rest
    return a :: others

/-- A lexeme that resolves is matched by its text and category alone. -/
theorem token_of_resolves {x : Lexeme} (h : l.Resolves x) : Token.ofLexeme l x =
    ⟨if x.category.isNumber then none else some x.text, x.category, x.text⟩ := by
  rw [Token.ofLexeme, h]

theorem tokens_alike (hx : ∀ x ∈ xs, l.Resolves x) (hy : ∀ y ∈ ys, l'.Resolves y)
    (h : Alike xs ys) : xs.map (Token.ofLexeme l) = ys.map (Token.ofLexeme l') := by
  rw [List.map_congr_left fun x hm => token_of_resolves (hx x hm),
    List.map_congr_left fun y hm => token_of_resolves (hy y hm)]
  exact h.map _ fun _ => rfl

namespace Parse

theorem ignoredNode?_congr (h : xs.map (Token.ofLexeme l) = ys.map (Token.ofLexeme l'))
    (start : Nat) : ignoredNode? xs start = ignoredNode? ys start := by
  have hlen : xs.length = ys.length := by simpa using congrArg List.length h
  have ht : xs[start]?.map Lexeme.text = ys[start]?.map Lexeme.text := by
    have := congrArg (fun ts : List Token => ts[start]?.map Token.shown) h
    simpa [Function.comp_def, Token.ofLexeme] using this
  unfold ignoredNode?
  cases hx : xs[start]? <;> cases hy : ys[start]? <;> simp_all

/-- A parse depends on the tokens of the lexemes. -/
theorem parse_congr (h : xs.map (Token.ofLexeme l) = ys.map (Token.ofLexeme l')) :
    parse g l xs = parse g l' ys := by
  have hlen : xs.length = ys.length := by simpa using congrArg List.length h
  have hm : matcher g l xs = matcher g l' ys := by rw [matcher, matcher, h]
  have hr : Parsed.ofRoot xs = Parsed.ofRoot ys := by
    funext root events
    rw [Parsed.ofRoot, Parsed.ofRoot, hlen, ignoredNode?_congr h]
  rw [parse, parse, hm, hr]

end Parse

/-- Two analyses of one text with lexicons that have the same words and separators. -/
theorem view_analyze (hl : SameTerminals l l') (rules : LexicalRules) (g : Grammar)
    (source : String) :
    (analyze rules g l source).map Analysis.view =
      (analyze rules g l' source).map Analysis.view := by
  obtain ⟨hx, hf⟩ := Lexing.alike_tokenize hl rules source
  have ht := tokens_alike (Lexing.resolves_tokenize rules l source)
    (Lexing.resolves_tokenize rules l' source) hx
  unfold analyze
  dsimp only
  rw [Parse.parse_congr ht, Option.map_map, Option.map_map]
  congr 1
  funext parsed
  change Analysis.View.mk _ _ _ = Analysis.View.mk _ _ _
  rw [hf, hx]

theorem sameTerminals_analyze {a : Analysis} {source : String}
    (h : analyze rules g l source = some a) : SameTerminals l a.lexicon := by
  obtain ⟨parsed, _, rfl⟩ := Option.map_eq_some_iff.mp h
  exact (Lexing.grows_tokenize rules l source).toSameTerminals

theorem view_analyzeAll (language : Language) (hl : SameTerminals language.lexicon l)
    (sources : List String) :
    (language.analyzeAll l sources).map (List.map Analysis.view) =
      sources.mapM fun source => (language.analyze source).map Analysis.view := by
  induction sources generalizing l with
  | nil => rfl
  | cons source rest ih =>
    rw [List.mapM_cons, Language.analyze, view_analyze hl]
    unfold Language.analyzeAll
    cases ha : analyze language.lexical language.grammar l source with
    | none => rfl
    | some a =>
      have hr := ih (hl.trans (sameTerminals_analyze ha))
      simp only [Option.map_some, Option.bind_eq_bind, Option.bind_some, ← hr]
      cases language.analyzeAll a.lexicon rest <;> rfl

theorem sameTerminals_analyzeAll (language : Language) {as : List Analysis} {sources : List String}
    (h : language.analyzeAll l sources = some as) : ∀ a ∈ as, SameTerminals l a.lexicon := by
  induction sources generalizing l as with
  | nil =>
    cases h
    nofun
  | cons source rest ih =>
    obtain ⟨a, ha, h⟩ := Option.bind_eq_some_iff.mp h
    obtain ⟨others, ho, h⟩ := Option.bind_eq_some_iff.mp h
    cases h
    have hs := sameTerminals_analyze ha
    intro b hb
    rcases List.mem_cons.mp hb with rfl | hb
    · exact hs
    · exact hs.trans (ih ho b hb)

/-- Whatever was analyzed before, each analysis shows the same tree, the same fault and the same
lexemes as with a lexicon of its own, and leaves words and separators as they were. -/
theorem analyses_independent (language : Language) (sources : List String) :
    (language.analyzeAll language.lexicon sources).map (List.map Analysis.view) =
      (sources.mapM fun source => (language.analyze source).map Analysis.view) ∧
    ∀ as, language.analyzeAll language.lexicon sources = some as → ∀ a ∈ as,
      a.lexicon.words = language.lexicon.words ∧
        a.lexicon.separators = language.lexicon.separators := by
  refine ⟨view_analyzeAll language (.refl _) sources, fun as h a ha => ?_⟩
  have hs := sameTerminals_analyzeAll language h a ha
  exact ⟨hs.words, hs.separators⟩

/-- Before it stops, the first text leaves an identifier behind, so the `a` of the second text has a
symbol that it would not have in a lexicon of its own. -/
theorem analyses_independent_lists :
    let language : Language := ⟨Parse.listsRules, Parse.lists⟩
    ∃ as, language.analyzeAll language.lexicon ["b 7 ?", "(a())"] = some as ∧
      as.map (fun a => (a.fault.isSome, a.lexemes.map Lexeme.symbol)) =
        [(true, [0, 0]), (false, [0, 1, 0, 1, 1])] ∧
      (["b 7 ?", "(a())"].mapM fun source => (language.analyze source).map Analysis.view) =
        some (as.map Analysis.view) ∧
      ∀ a ∈ as, a.lexicon.words = language.lexicon.words ∧
        a.lexicon.separators = language.lexicon.separators := by
  intro language
  have hs : (language.analyzeAll language.lexicon ["b 7 ?", "(a())"]).map
      (List.map fun a => (a.fault.isSome, a.lexemes.map Lexeme.symbol)) =
      some [(true, [0, 0]), (false, [0, 1, 0, 1, 1])] := by decide +kernel
  obtain ⟨as, ha, hs⟩ := Option.map_eq_some_iff.mp hs
  obtain ⟨hv, ht⟩ := analyses_independent language ["b 7 ?", "(a())"]
  exact ⟨as, ha, hs, by rw [← hv, ha]; rfl, ht as ha⟩

end Descent
