import Descent.Proofs.Parse.Spans

/-!
Verdicts agree with one another, with the errors and with the exit code, whatever was attempted,
undone or cut short on the way. A match leaves nodes without a failure among them, and a rule that
fails says why.
-/
namespace Descent.Parse

open Grammar (Item Variant)
open Matcher (leaf describe takes)

variable {m : Matcher} {call : String → Nat → Step Node} {c d depth : Nat} {us ns : List Node}
  {n : Node} {P : Node → Prop}

namespace Node

/-- A property of a node and of all nodes below it. -/
def Throughout (P : Node → Prop) (n : Node) : Prop := ∀ d, ∀ p ∈ n.preorder d, P p.2

theorem throughout_of_children (hn : P n) (hc : ∀ child ∈ n.children, child.Throughout P) :
    n.Throughout P := by
  intro d p hp
  rcases mem_preorder.mp hp with rfl | ⟨child, hm, hp⟩
  · exact hn
  · exact hc child hm (d + 1) p hp

/-- The node is no failure and carries no error. -/
structure Clean (n : Node) : Prop where
  verdict : n.verdict ≠ .failure
  error : n.error = none

/-- A node with no verdict of its own: a lexeme, or a variant of one literal that has matched. -/
inductive Passing (m : Matcher) : Node → Prop
  | lexeme {i : Nat} {token : Token} (h : m.input[i]? = some token) : Passing m (leaf i token)
  | literal {name text : String} {v : Variant} {i : Nat} {token : Token}
      (hv : v ∈ m.grammar.variants name) (hi : v.items = [.terminal text])
      (h : m.input[i]? = some token) (ht : takes (.terminal text) token) :
      Passing m { description := describe name v, span := some (.single i),
                  children := [leaf i token] }

/-- What the verdict of a node says of its error and of what is below it. -/
structure Consistent (m : Matcher) (n : Node) : Prop where
  error : n.error.isSome ↔ n.verdict = .failure
  success : n.verdict = .success → ∀ child ∈ n.children, child.Throughout Clean
  pending : n.verdict = .pending → n.Passing m

theorem consistent_leaf {token : Token} (h : m.input[c]? = some token) :
    (leaf c token).Throughout (Consistent m) :=
  throughout_of_children ⟨by simp [leaf], nofun, fun _ => .lexeme h⟩ nofun

theorem clean_leaf (token : Token) : (leaf c token).Throughout Clean :=
  throughout_of_children ⟨nofun, rfl⟩ nofun

end Node

namespace Matcher

open Node (Throughout Clean Consistent Passing)

/-- What the verdicts are on the nodes of items. -/
inductive Judged (m : Matcher) : Outcome (List Node) → Prop
  | matched {us : List Node} {d : Nat} (hu : ∀ u ∈ us, u.Throughout (Consistent m))
      (hc : ∀ u ∈ us, u.Throughout Clean) : Judged m (.matched us d)
  | stuck {us : List Node} {e : Mismatch} (hu : ∀ u ∈ us, u.Throughout (Consistent m)) :
      Judged m (.stuck us e)
  | unfinished : Judged m .unfinished

/-- What the verdicts are on the node of a rule and below it. -/
inductive JudgedRule (m : Matcher) : Outcome Node → Prop
  | matched {n : Node} {d : Nat} (hv : n.verdict = .success) (hn : n.Throughout (Consistent m))
      (hc : n.Throughout Clean) : JudgedRule m (.matched n d)
  | stuck {n : Node} {e : Mismatch} (hv : n.verdict = .failure)
      (hn : n.Throughout (Consistent m)) : JudgedRule m (.stuck n e)
  | unfinished : JudgedRule m .unfinished

theorem Judged.prepend {o : Outcome (List Node)} (hu : ∀ u ∈ us, u.Throughout (Consistent m))
    (hc : ∀ u ∈ us, u.Throughout Clean) (ho : Judged m o) : Judged m (o.map (us ++ ·)) := by
  cases ho with
  | matched hu' hc' =>
    exact .matched (List.forall_mem_append.mpr ⟨hu, hu'⟩) (List.forall_mem_append.mpr ⟨hc, hc'⟩)
  | stuck hu' => exact .stuck (List.forall_mem_append.mpr ⟨hu, hu'⟩)
  | unfinished => exact .unfinished

theorem judged_reference {o : Outcome Node} (h : JudgedRule m o) : Judged m (o.map ([·])) := by
  cases h with
  | matched _ hn hc =>
    exact .matched (List.forall_mem_singleton.mpr hn) (List.forall_mem_singleton.mpr hc)
  | stuck _ hn => exact .stuck (List.forall_mem_singleton.mpr hn)
  | unfinished => exact .unfinished

/-- An iteration that is undone takes its failures with it, and nothing else puts one before what
has matched. -/
theorem stepwise_judged (m : Matcher) (labels : List String) :
    m.Stepwise labels fun _ o => Judged m o where
  nil _ := .matched nofun nofun
  taken h := .matched (List.forall_mem_singleton.mpr (Node.consistent_leaf h))
    (List.forall_mem_singleton.mpr (Node.clean_leaf _))
  refused _ _ _ := .stuck nofun
  unfinished _ := .unfinished
  prepend hu ho := by
    cases hu with
    | matched hu hc => exact ho.prepend hu hc

theorem judged_sequence (hcall : ∀ name d, JudgedRule m (call name d).outcome)
    (items : List Item) (c : Nat) : Judged m (m.sequence call items c).outcome :=
  (stepwise_judged m _).sequence (fun name _ d _ => judged_reference (hcall name d)) items
    (fun _ h => h) c

variable {name : String} {v : Variant} {vs : List Variant} {f : Failures}

theorem matched_of_terminal {text : String}
    (h : (m.sequence call [.terminal text] c).outcome = .matched us d) :
    ∃ token, m.input[c]? = some token ∧ takes (.terminal text) token ∧ us = [leaf c token] ∧
      d = c + 1 := by
  obtain ⟨us, b, vs, hu, hv, rfl⟩ := Step.matched_of_andThen (sequence_cons [] ▸ h)
  rw [sequence_nil] at hv
  cases hv
  rcases item_single m call c (i := .terminal text) rfl with ⟨token, hin, ht, he⟩ | ⟨_, he⟩
  · rw [he] at hu
    cases hu
    exact ⟨token, hin, ht, rfl, rfl⟩
  · rw [he] at hu
    cases hu

theorem items_of_isBare (h : v.isBare = true) : ∃ text, v.items = [.terminal text] := by
  unfold Variant.isBare at h
  split at h
  · exact ⟨_, ‹_›⟩
  · cases h

theorem judgedRule_accepted (hv : v ∈ m.grammar.variants name)
    (hs : (m.sequence call v.items c).outcome = .matched us d)
    (hu : ∀ u ∈ us, u.Throughout (Consistent m)) (hc : ∀ u ∈ us, u.Throughout Clean) :
    JudgedRule m (.matched (accepted name c v us d) d) := by
  have hclean : ∀ child ∈ (accepted name c v us d).children, child.Throughout Clean := by
    refine List.forall_mem_singleton.mpr (Node.throughout_of_children ⟨?_, rfl⟩ hc)
    dsimp only
    split <;> nofun
  have hvariant : ∀ child ∈ (accepted name c v us d).children, child.Throughout (Consistent m) := by
    refine List.forall_mem_singleton.mpr (Node.throughout_of_children ⟨?_, fun _ => hc, ?_⟩ hu)
    · dsimp only
      split <;> simp
    · intro hp
      dsimp only at hp
      split at hp
      · rename_i hb
        obtain ⟨text, hi⟩ := items_of_isBare hb
        obtain ⟨token, hin, ht, rfl, rfl⟩ := matched_of_terminal (hi ▸ hs)
        have hspan : Span.consumed c (c + 1) = some (.single c) := if_pos (Nat.lt_succ_self c)
        rw [hspan, if_pos hb]
        exact .literal hv hi hin ht
      · cases hp
  have hn : (accepted name c v us d).Consistent m := ⟨by simp [accepted], fun _ => hclean, nofun⟩
  exact .matched rfl (Node.throughout_of_children hn hvariant)
    (Node.throughout_of_children ⟨nofun, rfl⟩ hclean)

theorem consistent_addFailure {e : Mismatch} (hu : ∀ u ∈ us, u.Throughout (Consistent m))
    (hf : ∀ a ∈ f.attempts, a.Throughout (Consistent m)) :
    ∀ a ∈ (m.addFailure name c v us e f).attempts, a.Throughout (Consistent m) :=
  List.forall_mem_append.mpr ⟨hf, List.forall_mem_singleton.mpr
    (Node.throughout_of_children ⟨by simp, nofun, nofun⟩ hu)⟩

theorem judgedRule_choose (hcall : ∀ name d, JudgedRule m (call name d).outcome)
    (hv : ∀ v ∈ vs, v ∈ m.grammar.variants name)
    (hf : ∀ a ∈ f.attempts, a.Throughout (Consistent m)) :
    JudgedRule m (m.choose call name c vs f).outcome := by
  induction vs generalizing f with
  | nil =>
    rw [choose_nil]
    exact .stuck rfl (Node.throughout_of_children ⟨by simp, nofun, nofun⟩ hf)
  | cons v rest ih =>
    obtain ⟨hv, hrest⟩ := List.forall_mem_cons.mp hv
    have hj := judged_sequence hcall v.items c
    generalize ho : (m.choose call name c (v :: rest) f).outcome = o
    cases choose_attempt ho with
    | pruned _ ho => exact ho ▸ ih hrest hf
    | matched _ hs =>
      cases hs ▸ hj with
      | matched hu hc => exact judgedRule_accepted hv hs hu hc
    | failed _ hs ho =>
      cases hs ▸ hj with
      | stuck hu => exact ho ▸ ih hrest (consistent_addFailure hu hf)
    | unfinished => exact .unfinished

theorem judgedRule_rule (m : Matcher) (depth : Nat) (name : String) (c : Nat) :
    JudgedRule m (m.rule depth name c).outcome := by
  induction depth generalizing name c with
  | zero =>
    rw [rule_zero]
    exact .unfinished
  | succ depth ih =>
    rw [rule_succ]
    exact judgedRule_choose ih (fun _ h => h) nofun

end Matcher

namespace Tree

/-- The nodes in the order in which they are shown. -/
def nodes (t : Tree) : List Node := t.tops.flatMap fun top => (top.preorder 0).map Prod.snd

variable {t : Tree}

theorem mem_nodes : n ∈ t.nodes ↔ n = t.root ∨
    (∃ child ∈ t.root.children, ∃ d, (d, n) ∈ child.preorder 1) ∨
    ∃ top ∈ t.ignored, ∃ d, (d, n) ∈ top.preorder 0 := by
  have hroot : (∃ d, (d, n) ∈ t.root.preorder 0) ↔ n = t.root ∨
      ∃ child ∈ t.root.children, ∃ d, (d, n) ∈ child.preorder 1 := by
    simp only [Node.mem_preorder (n := t.root), Prod.mk.injEq]
    constructor
    · rintro ⟨d, ⟨-, rfl⟩ | ⟨child, hc, hd⟩⟩
      · exact Or.inl rfl
      · exact Or.inr ⟨child, hc, d, hd⟩
    · rintro (rfl | ⟨child, hc, d, hd⟩)
      · exact ⟨0, Or.inl ⟨rfl, rfl⟩⟩
      · exact ⟨d, Or.inr ⟨child, hc, hd⟩⟩
  rw [← or_assoc, ← hroot]
  simp [nodes, tops]

/-- The verdicts in a whole tree. -/
structure Consistent (m : Matcher) (t : Tree) : Prop where
  nodes : ∀ n ∈ t.nodes, n.Consistent m
  root : t.root.verdict ≠ .pending
  leftover : ∀ n ∈ t.ignored, n.verdict = .failure

/-- A tree that is no success shows a failure. -/
theorem Consistent.isSuccess_iff (h : t.Consistent m) :
    t.isSuccess = true ↔ ∀ n ∈ t.nodes, n.verdict ≠ .failure := by
  have hs : t.isSuccess = true ↔ t.root.verdict = .success ∧ t.ignored = none := by
    simp [isSuccess]
  rw [hs]
  constructor
  · rintro ⟨hroot, hnone⟩ n hn
    obtain rfl | ⟨child, hc, d, hd⟩ | ⟨top, ht, -⟩ := mem_nodes.mp hn
    · simp [hroot]
    · have hclean := (h.nodes _ (mem_nodes.mpr (Or.inl rfl))).success hroot child hc
      exact (hclean 1 _ hd).verdict
    · simp [hnone] at ht
  · intro hn
    have hroot := hn _ (mem_nodes.mpr (Or.inl rfl))
    constructor
    · cases hv : t.root.verdict with
      | success => rfl
      | pending => exact absurd hv h.root
      | failure => exact absurd hv hroot
    · refine Option.eq_none_iff_forall_not_mem.mpr fun top ht => ?_
      have htop : (0, top) ∈ top.preorder 0 := Node.mem_preorder.mpr (Or.inl rfl)
      exact hn top (mem_nodes.mpr (Or.inr (Or.inr ⟨top, ht, 0, htop⟩))) (h.leftover top ht)

/-- A lexical fault makes the root a failure and leaves all other nodes as they are. -/
theorem Consistent.withFault (h : t.Consistent m) (fault : Option Lexing.Fault) :
    (t.withFault fault).Consistent m := by
  cases fault with
  | none => exact h
  | some f =>
    refine ⟨fun n hn => ?_, nofun, h.leftover⟩
    obtain rfl | hbelow := mem_nodes.mp hn
    · exact ⟨iff_of_true rfl rfl, nofun, nofun⟩
    · exact h.nodes n (mem_nodes.mpr (Or.inr hbelow))

end Tree

variable {g : Grammar} {lexicon : Lexicon} {lexemes : List Lexeme}

/-- What is left over is one failure and nothing below it. -/
theorem consistent_ignored {next : Nat} (h : n ∈ ignoredNode? lexemes next) :
    n.verdict = .failure ∧ n.Throughout (Node.Consistent m) := by
  obtain ⟨x, -, rfl⟩ := Option.map_eq_some_iff.mp h
  exact ⟨rfl, Node.throughout_of_children ⟨by simp, nofun, nofun⟩ nofun⟩

theorem consistent_ofRoot {root : Node} {events : List Event}
    (hn : root.Throughout (Node.Consistent m)) (hv : root.verdict ≠ .pending) :
    (Parsed.ofRoot lexemes root events).tree.Consistent m := by
  refine ⟨fun n hnode => ?_, hv, fun n h => (consistent_ignored (m := m) h).1⟩
  obtain ⟨top, ht, hp⟩ := List.mem_flatMap.mp hnode
  obtain ⟨p, hmem, rfl⟩ := List.mem_map.mp hp
  rcases List.mem_cons.mp ht with rfl | ht
  · exact hn 0 p hmem
  · exact (consistent_ignored (Option.mem_toList.mp ht)).2 0 p hmem

theorem consistent_parseWithin {parsed : Parsed}
    (h : parseWithin depth g lexicon lexemes = some parsed) :
    parsed.tree.Consistent (matcher g lexicon lexemes) := by
  have hj := (matcher g lexicon lexemes).judgedRule_rule depth g.main 0
  unfold parseWithin at h
  dsimp only at h
  split at h
  · rename_i root d ho
    cases h
    cases ho ▸ hj with
    | matched hv hn => exact consistent_ofRoot hn (by simp [hv])
  · rename_i root e ho
    cases h
    cases ho ▸ hj with
    | stuck hv hn => exact consistent_ofRoot hn (by simp [hv])
  · cases h

theorem isSuccess_withFault (t : Tree) (fault : Option Lexing.Fault) :
    (fault.isNone && (t.withFault fault).isSuccess) = (t.withFault fault).isSuccess := by
  cases fault <;> rfl

theorem consistent_analyze {rules : LexicalRules} {source : String} {a : Analysis}
    (h : analyze rules g lexicon source = some a) :
    a.tree.Consistent (matcher g a.lexicon a.lexemes) ∧
      (a.isSuccess = true ↔ ∀ n ∈ a.tree.nodes, n.verdict ≠ .failure) := by
  obtain ⟨parsed, hp, rfl⟩ := Option.map_eq_some_iff.mp h
  have ht := (consistent_parseWithin (parse_eq_parseWithin ▸ hp)).withFault
    (Lexing.tokenize rules lexicon source).fault
  refine ⟨ht, ?_⟩
  rw [Analysis.isSuccess, isSuccess_withFault]
  exact ht.isSuccess_iff

end Descent.Parse
