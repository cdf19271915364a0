import Descent.Proofs.Lexing.Sorting
import Descent.Proofs.Parse.Verdicts

/-!
Nodes in the source. A span lies within the lexemes and these lie in order, whatever was
substituted, so that a node with a span has a place that does not end before it begins.
-/
namespace Descent.Parse

open Lexing (Orderly)
open Text (Position)

variable {g : Grammar} {lexicon : Lexicon} {lexemes : List Lexeme} {n : Node}

/-- A node that has a place and a text exactly if it has a span, and whose place does not end before
it begins. -/
structure Node.Located (lexemes : List Lexeme) (n : Node) : Prop where
  location : (n.location? lexemes).isSome ↔ n.span.isSome
  text : (n.text? lexemes).isSome ↔ n.span.isSome
  ordered : ∀ place ∈ n.location? lexemes, place.first ≤ place.last

theorem first_le_last {x : Lexeme} (h : x.firstColumn ≤ x.lastColumn) : x.first ≤ x.last :=
  Or.inr ⟨rfl, h⟩

theorem located_of_bounds (ho : Orderly lexemes)
    (hb : ∀ s ∈ n.span, s.first ≤ s.last ∧ s.last < lexemes.length) : n.Located lexemes := by
  cases hs : n.span with
  | none =>
    have hl : n.location? lexemes = none := by rw [Node.location?, hs]; rfl
    have ht : n.text? lexemes = none := by rw [Node.text?, hs]; rfl
    refine ⟨?_, ?_, ?_⟩ <;> simp [hl, ht, hs]
  | some s =>
    obtain ⟨hle, hlt⟩ := hb s hs
    have hx := List.getElem?_eq_getElem (show s.first < lexemes.length by omega)
    have hy := List.getElem?_eq_getElem hlt
    have hl : n.location? lexemes =
        some ⟨lexemes[s.first].first, lexemes[s.last].last⟩ := by
      rw [Node.location?, hs]
      simp [hx, hy]
    have ht : n.text? lexemes = some (" ".intercalate
        (((lexemes.take (s.last + 1)).drop s.first).map Lexeme.text)) := by
      rw [Node.text?, hs]
      exact if_pos (by omega)
    refine ⟨by simp [hl, hs], by simp [ht, hs], fun place hp => ?_⟩
    obtain rfl := Option.some.inj (hl.symm.trans hp)
    exact Position.le_trans (Lexing.first_le_of_getElem? ho.sorted hle hx hy)
      (first_le_last (ho.columns _ (List.getElem_mem hlt)))

/-- A fault at the root leaves all spans as they are. -/
theorem bounds_of_mem_nodes {t : Tree} {size : Nat} (h : t.Fits g size)
    (fault : Option Lexing.Fault) (hn : n ∈ (t.withFault fault).nodes) :
    ∀ s ∈ n.span, s.first ≤ s.last ∧ s.last < size := by
  have hroot : (t.withFault fault).root.span = t.root.span ∧
      (t.withFault fault).root.children = t.root.children ∧
      (t.withFault fault).ignored = t.ignored := by
    cases fault <;> exact ⟨rfl, rfl, rfl⟩
  rcases Tree.mem_nodes.mp hn with rfl | ⟨child, hc, d, hd⟩ | ⟨top, ht, d, hd⟩
  · rw [hroot.1]
    exact (h.nodes t.root List.mem_cons_self _ (Node.mem_preorder.mpr (Or.inl rfl))).bounds
  · rw [hroot.2.1] at hc
    have hp := Node.mem_preorder.mpr (Or.inr ⟨child, hc, hd⟩)
    exact (h.nodes t.root List.mem_cons_self _ hp).bounds
  · rw [hroot.2.2] at ht
    have htop := List.mem_cons_of_mem t.root (Option.mem_toList.mpr ht)
    exact (h.nodes top htop _ hd).bounds

/-- Whatever is substituted, and whatever fault stops it, an analysis leaves lexemes in the order of
their places. A node of its tree has a place and a text exactly if it has a span, and its place ends
no earlier than it begins. -/
theorem locations_ordered (rules : LexicalRules) (g : Grammar) (lexicon : Lexicon)
    (source : String) :
    (∀ a, analyze rules g lexicon source = some a →
      Orderly a.lexemes ∧ ∀ n ∈ a.tree.nodes, n.Located a.lexemes) ∧
    Orderly (Lexing.tokenize rules lexicon source).lexemes ∧
    ∀ depth parsed,
      parseWithin depth g (Lexing.tokenize rules lexicon source).lexicon
        (Lexing.tokenize rules lexicon source).lexemes = some parsed →
      ∀ n ∈ (parsed.tree.withFault (Lexing.tokenize rules lexicon source).fault).nodes,
        n.Located (Lexing.tokenize rules lexicon source).lexemes := by
  have ho := Lexing.orderly_tokenize rules lexicon source
  have hparsed : ∀ depth parsed,
      parseWithin depth g (Lexing.tokenize rules lexicon source).lexicon
        (Lexing.tokenize rules lexicon source).lexemes = some parsed →
      ∀ n ∈ (parsed.tree.withFault (Lexing.tokenize rules lexicon source).fault).nodes,
        n.Located (Lexing.tokenize rules lexicon source).lexemes := by
    intro depth parsed hp n hn
    exact located_of_bounds ho (bounds_of_mem_nodes (fits_parseWithin hp) _ hn)
  refine ⟨fun a ha => ?_, ho, hparsed⟩
  obtain ⟨parsed, hp, rfl⟩ := Option.map_eq_some_iff.mp ha
  exact ⟨ho, hparsed _ parsed (parse_eq_parseWithin ▸ hp)⟩

/-- Lists in which an empty one grows, up to a substitution that cannot be made. -/
def growingLists : Language :=
  ⟨{ listsRules with substitutions := [⟨"( )", "( ( ) )"⟩, ⟨") )", ") x )"⟩] }, lists⟩

/-- The two parentheses inserted and the one before them begin in one column. -/
theorem locations_ordered_growing :
    ∃ a, growingLists.analyze "(a())" = some a ∧ a.fault.isSome = true ∧
      a.lexemes.map Lexeme.firstColumn = [1, 2, 3, 3, 3, 4, 5] ∧
      Orderly a.lexemes ∧ ∀ n ∈ a.tree.nodes, n.Located a.lexemes := by
  have hrun : (growingLists.analyze "(a())").map
      (fun a => (a.fault.isSome, a.lexemes.map Lexeme.firstColumn)) =
        some (true, [1, 2, 3, 3, 3, 4, 5]) := by
    decide +kernel
  obtain ⟨a, ha, hp⟩ := Option.map_eq_some_iff.mp hrun
  obtain ⟨hf, hc⟩ := Prod.mk.inj hp
  have hlocated := locations_ordered growingLists.lexical lists growingLists.lexicon "(a())"
  exact ⟨a, ha, hf, hc, hlocated.1 a ha⟩

end Descent.Parse
