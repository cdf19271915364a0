import Descent.Proofs.Grammar.Normalization
import Descent.Proofs.Parse.Verdicts
import Descent.Proofs.Text.OneLine

/-!
The wording of a parse. Its nodes and messages are made of names of rules, tokens of the grammar and
texts of lexemes. Where these stand on one line each, so does whatever is shown of a node.
-/
namespace Descent

namespace Grammar

open Text (OneLine)

variable {names : List String} {lexicon : Lexicon} {text : GrammarText} {g : Grammar}
  {piece : List Char} {items : List Item} {v : Variant}

/-- Nothing that a variant puts into a tree has a newline in it. -/
structure Variant.Legible (v : Variant) : Prop where
  text : OneLine v.text
  labels : ∀ what ∈ labels v.items, OneLine what

/-- What a sequence calls for stands in its tokens, or is a class of lexemes. -/
theorem oneLine_labels (h : ∀ t ∈ itemTokens items, OneLine t) :
    ∀ what ∈ labels items, OneLine what := by
  induction items using items_induction with
  | nil => exact List.forall_mem_nil _
  | single i rest hi ih =>
    obtain ⟨htokens, hrest⟩ := List.forall_mem_append.mp h
    refine List.forall_mem_append.mpr ⟨?_, ih hrest⟩
    cases i with
    | terminal t => exact htokens
    | lexical c => cases c <;> decide
    | rule | many => cases hi
  | rule name rest ih =>
    obtain ⟨htoken, hrest⟩ := List.forall_mem_cons.mp h
    refine List.forall_mem_cons.mpr ⟨?_, ih hrest⟩
    intro hm
    apply htoken
    rw [toList_reference]
    exact List.mem_cons_of_mem _ (List.mem_append_left _ hm)
  | many body rest ihb ihr =>
    obtain ⟨hbody, hrest⟩ := List.forall_mem_append.mp h
    obtain ⟨-, hbody⟩ := List.forall_mem_cons.mp hbody
    exact List.forall_mem_append.mpr ⟨ihb (List.forall_mem_append.mp hbody).1, ihr hrest⟩

theorem Denotes.legible (h : Denotes names lexicon piece v) : v.Legible := by
  have htokens : ∀ t ∈ itemTokens v.items, OneLine t := by
    intro t ht
    rw [h.tokens] at ht
    exact Text.oneLine_of_visible (isToken_of_mem_tokens ht).visible
  refine ⟨?_, oneLine_labels htokens⟩
  rw [h.text]
  exact Text.oneLine_intercalate (by decide) htokens

/-- Tokens are cut at blanks, so that only a name could bring a newline into a grammar. -/
theorem legible_of_compile (h : compile lexicon text = .ok g) {name : String}
    (hv : v ∈ g.variants name) : v.Legible := by
  obtain ⟨-, hrules, -, -⟩ := compile_eq_ok_iff.mp h
  obtain ⟨r, hr, -, he⟩ := rule_of_mem_variants hv
  rw [he] at hv
  obtain ⟨t, -, ht⟩ := exists_of_mem_forall₂ hrules hr
  obtain ⟨piece, -, hd⟩ := exists_of_mem_forall₂ ht.variants hv
  exact hd.legible

theorem exists_main_of_compile (h : compile lexicon text = .ok g) :
    ∃ r ∈ g.rules, r.name = g.main := by
  obtain ⟨-, hrules, -, hmain⟩ := compile_eq_ok_iff.mp h
  rw [declared, ← map_name_of_ruleDenotes hrules] at hmain
  exact List.mem_map.mp hmain

end Grammar

namespace Parse

open Grammar (Item Variant)
open Matcher (describe)
open Text (OneLine)

variable {α β : Type} {m : Matcher} {call : String → Nat → Step Node} {c d depth : Nat}
  {us : List Node} {n : Node} {e : Mismatch} {P : α → Prop} {Q : β → Prop}

/-- The description and the error of a node have no newline in them. -/
structure Node.Legible (n : Node) : Prop where
  description : OneLine n.description
  error : ∀ message ∈ n.error, OneLine message

theorem oneLine_of_mem_some {message other : String} (h : OneLine message)
    (hm : other ∈ some message) : OneLine other := by
  obtain rfl := Option.mem_some.mp hm
  exact h

/-- The attempts that have failed so far, and the last message. -/
structure Failures.Legible (f : Failures) : Prop where
  attempts : ∀ a ∈ f.attempts, a.Throughout Node.Legible
  message : ∀ message ∈ f.message, OneLine message

/-- A property of the result, matched or stuck, and a message without a newline. -/
inductive Outcome.Legible (P : α → Prop) : Outcome α → Prop
  | matched {a : α} {d : Nat} (ha : P a) : Legible P (.matched a d)
  | stuck {a : α} {e : Mismatch} (ha : P a) (he : OneLine e.message) : Legible P (.stuck a e)
  | unfinished : Legible P .unfinished

theorem Outcome.Legible.map {o : Outcome α} {f : α → β} (h : o.Legible P)
    (hf : ∀ a, P a → Q (f a)) : (o.map f).Legible Q := by
  cases h with
  | matched ha => exact .matched (hf _ ha)
  | stuck ha he => exact .stuck (hf _ ha) he
  | unfinished => exact .unfinished

/-- The lexemes are shown on one line each, and no variant has a newline in it. -/
structure Matcher.Legible (m : Matcher) : Prop where
  shown : ∀ (c : Nat) (token : Token), m.input[c]? = some token → OneLine token.shown
  variants : ∀ (name : String), ∀ v ∈ m.grammar.variants name, v.Legible

namespace Matcher

open Node (Throughout)

theorem Legible.mismatch (hm : m.Legible) {what : String} (hw : OneLine what) (c : Nat) :
    OneLine (m.mismatch what c).message := by
  have hfound : OneLine (m.found c) := by
    unfold found
    cases hc : m.input[c]? with
    | none => decide
    | some token => exact hm.shown c token hc
  change OneLine (what ++ " expected but " ++ m.found c ++ " found")
  simp only [Text.oneLine_append]
  exact ⟨⟨⟨hw, by decide⟩, hfound⟩, by decide⟩

theorem Legible.leaf (hm : m.Legible) {token : Token} (h : m.input[c]? = some token) :
    (leaf c token).Throughout Node.Legible :=
  Node.throughout_of_children ⟨hm.shown c token h, nofun⟩ (List.forall_mem_nil _)

theorem stepwise_legible (hm : m.Legible) {labels : List String}
    (hl : ∀ what ∈ labels, OneLine what) :
    m.Stepwise labels fun _ o => o.Legible fun us => ∀ u ∈ us, u.Throughout Node.Legible where
  nil _ := .matched (List.forall_mem_nil _)
  taken h := .matched (List.forall_mem_singleton.mpr (hm.leaf h))
  refused c what h := .stuck (List.forall_mem_nil _) (hm.mismatch (hl what h) c)
  unfinished _ := .unfinished
  prepend hu ho := by
    cases hu with
    | matched hu => exact ho.map fun _ hv => List.forall_mem_append.mpr ⟨hu, hv⟩

variable {name : String} {v : Variant} {vs : List Variant} {f : Failures}

theorem legible_sequence (hm : m.Legible)
    (hcall : ∀ name, OneLine name → ∀ d, (call name d).outcome.Legible (Throughout Node.Legible))
    (hv : v.Legible) (c : Nat) :
    (m.sequence call v.items c).outcome.Legible fun us => ∀ u ∈ us, u.Throughout Node.Legible := by
  refine (stepwise_legible hm hv.labels).sequence ?_ v.items (fun _ h => h) c
  intro name hname d _
  exact (hcall name (hv.labels name hname) d).map fun _ hn => List.forall_mem_singleton.mpr hn

theorem oneLine_describe (hname : OneLine name) (hv : v.Legible) : OneLine (describe name v) := by
  unfold describe
  simp only [Text.oneLine_append]
  exact ⟨⟨hname, by decide⟩, hv.text⟩

theorem legible_accepted (hname : OneLine name) (hv : v.Legible)
    (hu : ∀ u ∈ us, u.Throughout Node.Legible) :
    (accepted name c v us d).Throughout Node.Legible := by
  refine Node.throughout_of_children ⟨hname, nofun⟩ (List.forall_mem_singleton.mpr ?_)
  exact Node.throughout_of_children ⟨oneLine_describe hname hv, nofun⟩ hu

theorem legible_addFailure (hname : OneLine name) (hv : v.Legible)
    (hu : ∀ u ∈ us, u.Throughout Node.Legible) (he : OneLine e.message) (hf : f.Legible) :
    (m.addFailure name c v us e f).Legible := by
  have hmessage : ∀ message ∈ some e.message, OneLine message := fun _ => oneLine_of_mem_some he
  refine ⟨List.forall_mem_append.mpr ⟨hf.attempts, List.forall_mem_singleton.mpr ?_⟩, hmessage⟩
  exact Node.throughout_of_children ⟨oneLine_describe hname hv, hmessage⟩ hu

theorem legible_rejected (hm : m.Legible) (hname : OneLine name) (hf : f.Legible) :
    (m.rejected name c f).Legible (Throughout Node.Legible) := by
  have hmessage : OneLine (f.message.getD (m.mismatch name c).message) := by
    cases ho : f.message with
    | none => exact hm.mismatch hname c
    | some message => exact hf.message message ho
  exact .stuck (Node.throughout_of_children ⟨hname, fun _ => oneLine_of_mem_some hmessage⟩
    hf.attempts) hmessage

theorem legible_choose (hm : m.Legible)
    (hcall : ∀ name, OneLine name → ∀ d, (call name d).outcome.Legible (Throughout Node.Legible))
    (hname : OneLine name) (hv : ∀ v ∈ vs, v.Legible) (hf : f.Legible) :
    (m.choose call name c vs f).outcome.Legible (Throughout Node.Legible) := by
  induction vs generalizing f with
  | nil =>
    rw [choose_nil]
    exact legible_rejected hm hname hf
  | cons v rest ih =>
    obtain ⟨hv, hrest⟩ := List.forall_mem_cons.mp hv
    have hseq := legible_sequence hm hcall hv c
    generalize ho : (m.choose call name c (v :: rest) f).outcome = o
    cases choose_attempt ho with
    | pruned _ ho => exact ho ▸ ih hrest hf
    | matched _ hs =>
      cases hs ▸ hseq with
      | matched hu => exact .matched (legible_accepted hname hv hu)
    | failed _ hs ho =>
      cases hs ▸ hseq with
      | stuck hu he => exact ho ▸ ih hrest (legible_addFailure hname hv hu he hf)
    | unfinished => exact .unfinished

theorem legible_rule (hm : m.Legible) (depth : Nat) (hname : OneLine name) (c : Nat) :
    (m.rule depth name c).outcome.Legible (Throughout Node.Legible) := by
  induction depth generalizing name c with
  | zero =>
    rw [rule_zero]
    exact .unfinished
  | succ depth ih =>
    rw [rule_succ]
    refine legible_choose hm (fun _ hname d => ih hname d) hname (hm.variants name) ?_
    exact ⟨List.forall_mem_nil _, nofun⟩

end Matcher

variable {g : Grammar} {lexicon : Lexicon} {lexemes : List Lexeme} {t : Tree} {parsed : Parsed}

/-- Whatever a tree shows of its nodes has no newline in it. -/
def Tree.Legible (t : Tree) : Prop := ∀ n ∈ t.nodes, n.Legible

theorem Tree.Legible.withFault (h : t.Legible) {fault : Option Lexing.Fault}
    (hf : ∀ f ∈ fault, OneLine f.message) : (t.withFault fault).Legible := by
  cases fault with
  | none => exact h
  | some f =>
    intro n hn
    obtain rfl | hbelow := Tree.mem_nodes.mp hn
    · have hroot := h t.root (Tree.mem_nodes.mpr (.inl rfl))
      exact ⟨hroot.description, fun _ => oneLine_of_mem_some (hf f rfl)⟩
    · exact h n (Tree.mem_nodes.mpr (.inr hbelow))

theorem legible_ignored (hx : ∀ x ∈ lexemes, OneLine x.text) {start : Nat}
    (h : n ∈ ignoredNode? lexemes start) : n.Throughout Node.Legible := by
  obtain ⟨x, hget, rfl⟩ := Option.map_eq_some_iff.mp h
  have hdescription : OneLine "Ignored text" := by decide
  have hmessage : OneLine ("EOF expected but " ++ x.text ++ " found") := by
    simp only [Text.oneLine_append]
    exact ⟨⟨by decide, hx x (List.mem_of_getElem? hget)⟩, by decide⟩
  exact Node.throughout_of_children ⟨hdescription, fun _ => oneLine_of_mem_some hmessage⟩
    (List.forall_mem_nil _)

theorem legible_ofRoot (hx : ∀ x ∈ lexemes, OneLine x.text) {root : Node}
    (hroot : root.Throughout Node.Legible) (events : List Event) :
    (Parsed.ofRoot lexemes root events).tree.Legible := by
  intro n hn
  obtain ⟨top, htop, hp⟩ := List.mem_flatMap.mp hn
  obtain ⟨p, hmem, rfl⟩ := List.mem_map.mp hp
  rcases List.mem_cons.mp htop with rfl | hignored
  · exact hroot 0 p hmem
  · exact legible_ignored hx (Option.mem_toList.mp hignored) 0 p hmem

theorem legible_matcher (hv : ∀ name, ∀ v ∈ g.variants name, v.Legible)
    (hx : ∀ x ∈ lexemes, OneLine x.text) : (matcher g lexicon lexemes).Legible := by
  refine ⟨fun c token h => ?_, hv⟩
  have hget : (lexemes.map (Token.ofLexeme lexicon))[c]? = some token := by
    simpa [matcher] using h
  obtain ⟨x, hmem, rfl⟩ := List.mem_map.mp (List.mem_of_getElem? hget)
  exact hx x hmem

theorem legible_parse (hv : ∀ name, ∀ v ∈ g.variants name, v.Legible) (hmain : OneLine g.main)
    (hx : ∀ x ∈ lexemes, OneLine x.text) (h : parse g lexicon lexemes = some parsed) :
    parsed.tree.Legible := by
  have hm : (matcher g lexicon lexemes).Legible := legible_matcher hv hx
  have hroot := Matcher.legible_rule hm (matcher g lexicon lexemes).depthBound hmain 0
  unfold parse at h
  dsimp only at h
  split at h
  · rename_i root d ho
    cases h
    cases ho ▸ hroot with
    | matched hroot => exact legible_ofRoot hx hroot _
  · rename_i root e ho
    cases h
    cases ho ▸ hroot with
    | stuck hroot => exact legible_ofRoot hx hroot _
  · cases h

end Parse

end Descent
