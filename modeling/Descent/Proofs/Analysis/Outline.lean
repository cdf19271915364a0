import Descent.Outline
import Descent.Proofs.Lexing.Wording
import Descent.Proofs.Parse.Shapes
import Descent.Proofs.Parse.Wording

/-!
Outlines read back. Whatever a source holds, each node of its tree has one line in the outline. The
indentation and the sign of the lines tell the depth and the verdict of the nodes, and so the shape
of the whole tree.
-/
namespace Descent

open Parse (Node Shape)
open Text (OneLine lines)

variable {lexemes : List Lexeme} {source : String} {a : Analysis}

namespace Outline

def verdict? : Char → Option Verdict
  | '-' => some .pending
  | '+' => some .success
  | '!' => some .failure
  | _ => none

/-- The depth that the indentation of a line tells, and the verdict by the sign after it. -/
def mark? (line : List Char) : Option (Nat × Verdict) :=
  let indentation := line.takeWhile (· = ' ')
  (line.drop indentation.length).head?.bind fun c =>
    (verdict? c).map (indentation.length / 2, ·)

theorem verdict?_sign (v : Verdict) : verdict? (sign v) = some v := by
  cases v <;> rfl

theorem sign_ne_space (v : Verdict) : sign v ≠ ' ' := by
  cases v <;> decide

/-- What follows the sign has no part in it. -/
theorem mark?_indented (depth : Nat) (v : Verdict) (rest : List Char) :
    mark? (List.replicate (2 * depth) ' ' ++ sign v :: rest) = some (depth, v) := by
  have htake : (List.replicate (2 * depth) ' ' ++ sign v :: rest).takeWhile (· = ' ') =
      List.replicate (2 * depth) ' ' := by
    rw [List.takeWhile_append_of_pos (by simp),
      List.takeWhile_cons_of_neg (by simpa using sign_ne_space v), List.append_nil]
  unfold mark?
  dsimp only
  rw [htake, List.length_replicate, List.drop_left' (List.length_replicate), List.head?_cons]
  simp [verdict?_sign]

/-- The line of a node without its indentation, its sign and its newline. -/
def caption (lexemes : List Lexeme) (n : Node) : String :=
  n.description ++ (n.location? lexemes).elim "" (" @ " ++ ·.text) ++ n.error.elim "" (": " ++ ·)

/-- The line of a node without its newline. -/
def row (lexemes : List Lexeme) (p : Nat × Node) : List Char :=
  List.replicate (2 * p.1) ' ' ++ sign p.2.verdict :: ' ' :: (caption lexemes p.2).toList

theorem toList_line (lexemes : List Lexeme) (p : Nat × Node) :
    (line lexemes p.1 p.2).toList = row lexemes p ++ ['\n'] := by
  simp [line, row, caption]

theorem oneLine_location (l : Parse.Location) : OneLine l.text := by
  have hcolon : OneLine ":" := by decide
  have hdots : OneLine ".." := by decide
  change OneLine (toString l.first.line ++ ":" ++ toString l.first.column ++ ".." ++
    toString l.last.line ++ ":" ++ toString l.last.column)
  simp only [Text.oneLine_append, Text.oneLine_toString, hcolon, hdots, and_self]

theorem oneLine_caption {n : Node} (h : n.Legible) : OneLine (caption lexemes n) := by
  unfold caption
  simp only [Text.oneLine_append]
  refine ⟨⟨h.description, ?_⟩, ?_⟩
  · cases n.location? lexemes with
    | none => decide
    | some l => exact Text.oneLine_append.mpr ⟨by decide, oneLine_location l⟩
  · cases ho : n.error with
    | none => decide
    | some message => exact Text.oneLine_append.mpr ⟨by decide, h.error message ho⟩

theorem newline_not_mem_row {p : Nat × Node} (h : p.2.Legible) : '\n' ∉ row lexemes p := by
  have hsign : '\n' ≠ sign p.2.verdict := by
    cases p.2.verdict <;> decide
  have hcaption : '\n' ∉ (caption lexemes p.2).toList := oneLine_caption h
  simp [row, hsign, hcaption]

theorem mark?_row (lexemes : List Lexeme) (p : Nat × Node) :
    mark? (row lexemes p) = some (p.1, p.2.verdict) := mark?_indented p.1 p.2.verdict _

theorem mark?_dropReturn_row (lexemes : List Lexeme) (p : Nat × Node) :
    mark? (Text.dropReturn (row lexemes p)) = some (p.1, p.2.verdict) := by
  have hrow : row lexemes p = (List.replicate (2 * p.1) ' ' ++ [sign p.2.verdict]) ++
      ' ' :: (caption lexemes p.2).toList := by
    simp [row]
  rw [hrow, Text.dropReturn_append _ (List.cons_ne_nil _ _), List.append_assoc,
    List.singleton_append]
  exact mark?_indented p.1 p.2.verdict _

end Outline

/-- The nodes of a tree in the order of the lines, each with its depth. -/
def Parse.Tree.walk (t : Parse.Tree) : List (Nat × Node) := t.tops.flatMap (·.preorder 0)

/-- The lines of all nodes. -/
def Analysis.rows (a : Analysis) : List (List Char) := a.tree.walk.map (Outline.row a.lexemes)

theorem toList_outline (a : Analysis) : a.outline.toList = a.rows.flatMap (· ++ ['\n']) := by
  unfold Analysis.outline Analysis.rows Parse.Tree.walk
  rw [String.toList_join]
  simp only [List.flatMap_assoc, List.flatMap_map, List.map_flatMap, Outline.toList_line]

theorem lines_outline (h : a.tree.Legible) : lines a.outline.toList =
    a.tree.walk.map fun p => Text.dropReturn (Outline.row a.lexemes p) := by
  rw [toList_outline, Text.lines_of_rows, Analysis.rows, List.map_map]
  · rfl
  · intro row hrow
    obtain ⟨p, hp, rfl⟩ := List.mem_map.mp hrow
    obtain ⟨top, htop, hmem⟩ := List.mem_flatMap.mp hp
    apply Outline.newline_not_mem_row
    exact h p.2 (List.mem_flatMap.mpr ⟨top, htop, List.mem_map.mpr ⟨p, hmem, rfl⟩⟩)

/-- The depths and verdicts of a tree in preorder are those of its shapes. -/
theorem map_walk (t : Parse.Tree) : t.walk.map (fun p => (p.1, p.2.verdict)) =
    t.tops.flatMap (·.shape.levels 0) := by
  unfold Parse.Tree.walk
  simp only [List.map_flatMap, Node.levels_shape]

theorem marks_outline (h : a.tree.Legible) : (lines a.outline.toList).map Outline.mark? =
    (a.tree.tops.flatMap (·.shape.levels 0)).map some := by
  rw [lines_outline h, ← map_walk, List.map_map, List.map_map]
  exact List.map_congr_left fun p _ => Outline.mark?_dropReturn_row a.lexemes p

theorem length_lines_outline (h : a.tree.Legible) :
    (lines a.outline.toList).length = (a.tree.tops.map (·.shape.size)).sum := by
  have hmarks := congrArg List.length (marks_outline h)
  rw [List.length_map, List.length_map, List.length_flatMap] at hmarks
  simpa only [Shape.length_levels] using hmarks

/-- One outline, one forest. -/
theorem shapes_eq_of_outline {a' : Analysis} (h : a.tree.Legible) (h' : a'.tree.Legible)
    (ho : a'.outline = a.outline) :
    a'.tree.tops.map Node.shape = a.tree.tops.map Node.shape := by
  have hmarks := marks_outline h'
  rw [ho, marks_outline h] at hmarks
  have hlevels := List.map_injective_iff.mpr (Option.some_injective _) hmarks
  have hflat (t : Parse.Tree) : t.tops.flatMap (·.shape.levels 0) =
      Shape.levelsAll 0 (t.tops.map Node.shape) := by
    rw [Shape.levelsAll_eq_flatMap, List.flatMap_map]
  rw [hflat, hflat] at hlevels
  exact (Shape.levelsAll_injective hlevels).symm

/-- Nothing but a name of a rule could bring a newline into a tree. -/
theorem legible_analyze {d : Description} {l : Language} (hl : Language.ofDescription d = .ok l)
    (hn : ∀ r ∈ l.grammar.rules, OneLine r.name) (ha : l.analyze source = some a) :
    a.tree.Legible := by
  obtain ⟨g, hg, rfl⟩ := map_eq_ok_iff.mp hl
  obtain ⟨parsed, hp, rfl⟩ := Option.map_eq_some_iff.mp ha
  obtain ⟨r, hr, hmain⟩ := Grammar.exists_main_of_compile hg
  have hparsed := Parse.legible_parse (fun name v hv => Grammar.legible_of_compile hg hv)
    (hmain ▸ hn r hr) (Lexing.oneLine_tokenize _ _ source) hp
  exact hparsed.withFault fun f hf => Lexing.oneLine_message_of_tokenize hf

/-- An outline has as many lines as there are nodes, and its lines tell their depths and verdicts in
preorder, those of the leftover lexemes last. So two outlines are alike only where the trees have
the same shape with the same verdicts, whatever the languages and the sources are. -/
theorem outline_determines_shapes {d : Description} {l : Language}
    (hl : Language.ofDescription d = .ok l) (hn : ∀ r ∈ l.grammar.rules, OneLine r.name)
    (ha : l.analyze source = some a) :
    (lines a.outline.toList).length = (a.tree.tops.map (·.shape.size)).sum ∧
    (lines a.outline.toList).map Outline.mark? =
      (a.tree.tops.flatMap (·.shape.levels 0)).map some ∧
    ∀ d' l' source' a', Language.ofDescription d' = .ok l' →
      (∀ r ∈ l'.grammar.rules, OneLine r.name) → l'.analyze source' = some a' →
      a'.outline = a.outline → a'.tree.root.shape = a.tree.root.shape ∧
        a'.tree.ignored.map Node.shape = a.tree.ignored.map Node.shape := by
  have h := legible_analyze hl hn ha
  refine ⟨length_lines_outline h, marks_outline h, ?_⟩
  intro d' l' source' a' hl' hn' ha' ho
  have htops := shapes_eq_of_outline h (legible_analyze hl' hn' ha') ho
  obtain ⟨hroot, hignored⟩ := List.cons.inj htops
  have hhead := congrArg List.head? hignored
  rw [List.head?_map, List.head?_map, Option.head?_toList, Option.head?_toList] at hhead
  exact ⟨hroot, hhead⟩

def pairsRules : LexicalRules := { separators := ["(", ",", ")"] }

/-- A pair with a number after it, and the same in a language with comments. -/
theorem outline_determines_shapes_pairs :
    let l : Language := ⟨pairsRules, Grammar.pairs⟩
    let l' : Language := ⟨{ pairsRules with comments := [⟨"#", "\n"⟩] }, Grammar.pairs⟩
    ∃ a a', l.analyze "(1,\n2) 3" = some a ∧ l'.analyze "(1, # and\n2) 3" = some a' ∧
      (lines a.outline.toList).length = (a.tree.tops.map (·.shape.size)).sum ∧
      (lines a.outline.toList).map Outline.mark? =
        [(0, .success), (1, .success), (2, .pending), (2, .success), (3, .success), (4, .pending),
          (2, .pending), (2, .success), (3, .success), (4, .pending), (2, .pending),
          (0, .failure)].map some ∧
      a'.tree.root.shape = a.tree.root.shape ∧
      a'.tree.ignored.map Node.shape = a.tree.ignored.map Node.shape := by
  intro l l'
  have hcompile : Grammar.compile pairsRules.lexicon Grammar.pairsText = .ok Grammar.pairs := by
    cbv
  have hl : Language.ofDescription ⟨pairsRules, Grammar.pairsText⟩ = .ok l :=
    map_eq_ok_iff.mpr ⟨_, hcompile, rfl⟩
  have hl' : Language.ofDescription ⟨l'.lexical, Grammar.pairsText⟩ = .ok l' :=
    map_eq_ok_iff.mpr ⟨_, hcompile, rfl⟩
  have hn : ∀ r ∈ Grammar.pairs.rules, OneLine r.name := by decide
  have hlevels : (l.analyze "(1,\n2) 3").map (·.tree.tops.flatMap (·.shape.levels 0)) =
      some [(0, .success), (1, .success), (2, .pending), (2, .success), (3, .success),
        (4, .pending), (2, .pending), (2, .success), (3, .success), (4, .pending), (2, .pending),
        (0, .failure)] := by decide +kernel
  have hsame : (l'.analyze "(1, # and\n2) 3").map Analysis.outline =
      (l.analyze "(1,\n2) 3").map Analysis.outline := by decide +kernel
  obtain ⟨a, ha, hmarks⟩ := Option.map_eq_some_iff.mp hlevels
  rw [ha] at hsame
  obtain ⟨a', ha', ho⟩ := Option.map_eq_some_iff.mp hsame
  obtain ⟨hcount, hlines, hshapes⟩ := outline_determines_shapes hl hn ha
  exact ⟨a, a', ha, ha', hcount, hmarks ▸ hlines, hshapes _ l' _ a' hl' hn ha' ho⟩

end Descent
