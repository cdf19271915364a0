import Descent.Proofs.Analysis.Outline
import Descent.Proofs.Parse.Verdicts

/-!
The verdict on a source, its tree, its outline and the exit code. Each of them tells whether there
is a failure, and they tell the same.
-/
namespace Descent

open Parse (Node matcher parseWithin)
open Text (OneLine lines)

variable {a : Analysis} {rows : List (List Char)}

/-- None of the rows is that of a failure. -/
def Outline.Unfailing (rows : List (List Char)) : Prop :=
  ∀ row ∈ rows, ∀ depth, Outline.mark? row ≠ some (depth, .failure)

theorem Outline.unfailing_of_marks {walk : List (Nat × Node)}
    (h : rows.map Outline.mark? = walk.map fun p => some (p.1, p.2.verdict)) :
    Outline.Unfailing rows ↔ ∀ p ∈ walk, p.2.verdict ≠ .failure := by
  have hmarks (mark : Option (Nat × Verdict)) : (∃ row ∈ rows, Outline.mark? row = mark) ↔
      ∃ p ∈ walk, some (p.1, p.2.verdict) = mark := by
    rw [← List.mem_map, h, List.mem_map]
  constructor
  · intro hn p hp hv
    obtain ⟨row, hrow, hmark⟩ := (hmarks (some (p.1, p.2.verdict))).mpr ⟨p, hp, rfl⟩
    rw [hv] at hmark
    exact hn row hrow p.1 hmark
  · intro hn row hrow depth hmark
    obtain ⟨p, hp, he⟩ := (hmarks _).mp ⟨row, hrow, hmark⟩
    exact hn p hp (Prod.mk.inj (Option.some.inj he)).2

theorem forall_mem_nodes {t : Parse.Tree} {P : Node → Prop} :
    (∀ n ∈ t.nodes, P n) ↔ ∀ p ∈ t.walk, P p.2 := by
  have hnodes : t.nodes = t.walk.map Prod.snd := by
    rw [Parse.Tree.nodes, Parse.Tree.walk, List.map_flatMap]
  rw [hnodes]
  exact List.forall_mem_map

theorem unfailing_rows :
    Outline.Unfailing a.rows ↔ ∀ n ∈ a.tree.nodes, n.verdict ≠ .failure := by
  rw [forall_mem_nodes]
  apply Outline.unfailing_of_marks
  rw [Analysis.rows, List.map_map]
  exact List.map_congr_left fun p _ => Outline.mark?_row a.lexemes p

theorem unfailing_lines (h : a.tree.Legible) : Outline.Unfailing (lines a.outline.toList) ↔
    ∀ n ∈ a.tree.nodes, n.verdict ≠ .failure := by
  rw [forall_mem_nodes]
  apply Outline.unfailing_of_marks
  rw [lines_outline h, List.map_map]
  exact List.map_congr_left fun p _ => Outline.mark?_dropReturn_row a.lexemes p

theorem exitCode_eq_zero_iff {l : Language} {source : String} :
    (Command.analyzeSource l source).exitCode = 0 ↔
      ∃ a, l.analyze source = some a ∧ ∀ n ∈ a.tree.nodes, n.verdict ≠ .failure := by
  constructor
  · intro h
    obtain ⟨a, ha, hs⟩ := Parse.analyze_of_exitCode h
    exact ⟨a, ha, (Parse.consistent_analyze ha).2.mp hs⟩
  · rintro ⟨a, ha, hn⟩
    rw [Command.analyzeSource, ha]
    dsimp only
    rw [(Parse.consistent_analyze ha).2.mpr hn]
    rfl

theorem output_of_analyze {l : Language} {source : String} (h : l.analyze source = some a) :
    (Command.analyzeSource l source).output = a.outline := by
  rw [Command.analyzeSource, h]
  rfl

/-- In every tree, one with a lexical fault at its root too, a node carries an error exactly if it
is a failure, nothing below a success is one, only a lexeme or a variant of one literal is left
without a verdict, and never the root. An analysis is a success exactly if no node is a failure. The
output has a row for each node, and the exit code is 0 exactly if none of these rows is that of a
failure. Where the names of rules are on one line, so are the rows, and the lines of the output tell
the same. -/
theorem verdicts_consistent (rules : LexicalRules) (g : Grammar) (lexicon : Lexicon)
    (source : String) :
    (∀ lexemes depth parsed, parseWithin depth g lexicon lexemes = some parsed →
      parsed.tree.Consistent (matcher g lexicon lexemes)) ∧
    (∀ a, analyze rules g lexicon source = some a →
      a.tree.Consistent (matcher g a.lexicon a.lexemes) ∧
      (a.isSuccess = true ↔ ∀ n ∈ a.tree.nodes, n.verdict ≠ .failure)) ∧
    (∀ a, Language.analyze ⟨rules, g⟩ source = some a →
      (Command.analyzeSource ⟨rules, g⟩ source).output.toList = a.rows.flatMap (· ++ ['\n'])) ∧
    ((Command.analyzeSource ⟨rules, g⟩ source).exitCode = 0 ↔
      ∃ a, Language.analyze ⟨rules, g⟩ source = some a ∧ Outline.Unfailing a.rows) ∧
    ∀ d, Language.ofDescription d = .ok ⟨rules, g⟩ → (∀ r ∈ g.rules, OneLine r.name) →
      ((Command.analyzeSource ⟨rules, g⟩ source).exitCode = 0 ↔
        (Language.analyze ⟨rules, g⟩ source).isSome ∧
        Outline.Unfailing (lines (Command.analyzeSource ⟨rules, g⟩ source).output.toList)) := by
  refine ⟨fun _ _ _ => Parse.consistent_parseWithin, fun _ => Parse.consistent_analyze, ?_, ?_, ?_⟩
  · intro a ha
    rw [output_of_analyze ha, toList_outline]
  · simp only [exitCode_eq_zero_iff, unfailing_rows]
  · intro d hd hn
    rw [exitCode_eq_zero_iff, Option.isSome_iff_exists]
    constructor
    · rintro ⟨a, ha, hv⟩
      refine ⟨⟨a, ha⟩, ?_⟩
      rw [output_of_analyze ha]
      exact (unfailing_lines (legible_analyze hd hn ha)).mpr hv
    · rintro ⟨⟨a, ha⟩, hv⟩
      rw [output_of_analyze ha] at hv
      exact ⟨a, ha, (unfailing_lines (legible_analyze hd hn ha)).mp hv⟩

def listsText : GrammarText where
  main := "List"
  rules := [⟨"List", "([{List}]) | {Identifier}"⟩]

open Parse (lists listsRules) in
/-- A list that is closed, one that is not, and one before a character that no list has. -/
theorem verdicts_consistent_lists :
    let l : Language := ⟨listsRules, lists⟩
    (∃ a, l.analyze "(a())" = some a ∧ Outline.Unfailing a.rows ∧
      Outline.Unfailing (lines (Command.analyzeSource l "(a())").output.toList)) ∧
    ∀ source ∈ ["(a(", "(a)?"], ∃ a, l.analyze source = some a ∧
      (a.fault.isSome = true ↔ source = "(a)?") ∧
      a.tree.Consistent (matcher lists a.lexicon a.lexemes) ∧
      ∃ n ∈ a.tree.nodes, n.verdict = .failure := by
  intro l
  constructor
  · have he : (Command.analyzeSource l "(a())").exitCode = 0 := by decide +kernel
    have hd : Language.ofDescription ⟨listsRules, listsText⟩ = .ok l := by cbv
    have hn : ∀ r ∈ lists.rules, OneLine r.name := by decide
    obtain ⟨-, -, -, hrows, hlines⟩ := verdicts_consistent listsRules lists l.lexicon "(a())"
    obtain ⟨a, ha, hunfailing⟩ := hrows.mp he
    exact ⟨a, ha, hunfailing, ((hlines _ hd hn).mp he).2⟩
  · intro source hsource
    have hrun : (l.analyze source).map (fun a => (a.fault.isSome, a.isSuccess)) =
        some (decide (source = "(a)?"), false) := by
      obtain rfl | rfl := by simpa using hsource
      all_goals decide +kernel
    obtain ⟨a, ha, hp⟩ := Option.map_eq_some_iff.mp hrun
    obtain ⟨hf, hs⟩ := Prod.mk.inj hp
    obtain ⟨hc, hi⟩ := (verdicts_consistent listsRules lists l.lexicon source).2.1 a ha
    have hfailure : ∃ n ∈ a.tree.nodes, n.verdict = .failure := by
      simpa using mt hi.mpr (by simp [hs])
    exact ⟨a, ha, by simp [hf], hc, hfailure⟩

end Descent
