import Descent.Proofs.Parse.Verdicts

/-!
What a failure says is true of what is below it. Its span goes on to the lexeme after the last one
that it has taken in, and its message is that of the failure it ends with, or else names something
that was called for and the lexeme that stands there instead.
-/
namespace Descent.Parse

open Grammar (Item Variant labels)
open Matcher (leaf describe)

variable {m : Matcher} {call : String → Nat → Step Node} {g : Grammar} {c d depth : Nat}
  {us ns : List Node} {n : Node} {e : Mismatch} {xs ys : List Nat} {P : Node → Prop}
  {Q : Node → Node → Prop}

namespace Node

/-- One past each lexeme at and below a node. -/
def ends (n : Node) : List Nat := (spans n.leaves).map (·.last + 1)

/-- One past the last lexeme at and below a node, or `start` if there is none. -/
def extent (start : Nat) (n : Node) : Nat := n.ends.max?.getD start

/-- The one property for a node and those an even number of levels below, and the other for each of
these and its children: rules and lexemes take turns with variants. -/
def Alternately (P : Node → Prop) (Q : Node → Node → Prop) (n : Node) : Prop :=
  ∀ d, d % 2 = 0 → ∀ p ∈ n.preorder d, p.1 % 2 = 0 → P p.2 ∧ ∀ v ∈ p.2.children, Q p.2 v

theorem alternately_of_children (hn : P n) (hv : ∀ v ∈ n.children, Q n v)
    (hu : ∀ v ∈ n.children, ∀ u ∈ v.children, u.Alternately P Q) : n.Alternately P Q := by
  intro d hd p hp heven
  rcases mem_preorder.mp hp with rfl | ⟨v, hvn, hp⟩
  · exact ⟨hn, hv⟩
  · rcases mem_preorder.mp hp with rfl | ⟨u, hun, hp⟩
    · dsimp only at heven
      omega
    · exact hu v hvn u hun (d + 1 + 1) (by omega) p hp heven

end Node

/-- The message that one thing is called for where there is another. -/
def mismatchMessage (texts : List String) (what : String) (i : Nat) : String :=
  what ++ " expected but " ++ texts[i]?.getD "EOF" ++ " found"

/-- A failure that begins at lexeme `b` goes on to the lexeme after those below it, or to the last
one there is. -/
def Node.FailsFrom (texts : List String) (b : Nat) (n : Node) : Prop :=
  n.span = some ⟨b, min (n.extent b) (texts.length - 1)⟩

/-- The node of a rule that fails at lexeme `b`. -/
structure Node.RuleFailure (texts : List String) (b : Nat) (n : Node) : Prop where
  span : n.FailsFrom texts b
  inherited : ∀ child ∈ n.children.getLast?, n.error = child.error
  own : n.children = [] → n.error = some (mismatchMessage texts n.description b)

/-- The node of a variant of a rule that fails at lexeme `b`. -/
structure Node.VariantFailure (g : Grammar) (texts : List String) (rule : String) (b : Nat)
    (n : Node) : Prop where
  span : n.FailsFrom texts b
  inherited : ∀ child ∈ n.children.getLast?, child.verdict = .failure → n.error = child.error
  own : (∀ child ∈ n.children.getLast?, child.verdict ≠ .failure) →
    ∃ v ∈ g.variants rule, n.description = rule ++ " ::= " ++ v.text ∧
      ∃ what ∈ labels v.items, n.error = some (mismatchMessage texts what (n.extent b))

/-- Every failure at and below the node of a rule is true to what is below it. -/
def Node.Truthful (g : Grammar) (texts : List String) : Node → Prop :=
  Node.Alternately (fun n => n.verdict = .failure → ∃ b, n.RuleFailure texts b)
    (fun n v => v.verdict = .failure → ∃ b, v.VariantFailure g texts n.description b)

/-- Ends of lexemes from `c` on, the last of which is `d`. -/
structure Extends (c : Nat) (xs : List Nat) (d : Nat) : Prop where
  bounds : ∀ x ∈ xs, c < x ∧ x ≤ d
  last : d = c ∨ d ∈ xs

namespace Extends

theorem refl (c : Nat) : Extends c [] c := ⟨nofun, Or.inl rfl⟩

theorem le (h : Extends c xs d) : c ≤ d := by
  rcases h.last with rfl | hd
  · exact le_rfl
  · exact (h.bounds d hd).1.le

theorem append {e : Nat} (hx : Extends c xs d) (hy : Extends d ys e) : Extends c (xs ++ ys) e := by
  have hcd := hx.le
  have hde := hy.le
  refine ⟨fun z hz => ?_, ?_⟩
  · rcases List.mem_append.mp hz with hz | hz
    · have := hx.bounds z hz
      omega
    · have := hy.bounds z hz
      omega
  · rcases hy.last with rfl | he
    · exact hx.last.imp_right (List.mem_append_left ys)
    · exact Or.inr (List.mem_append_right xs he)

/-- Both begin at one lexeme. -/
theorem union {e : Nat} (hx : Extends c xs d) (hy : Extends c ys e) :
    Extends c (xs ++ ys) (max d e) := by
  have hcd := hx.le
  have hce := hy.le
  refine ⟨fun z hz => ?_, ?_⟩
  · rcases List.mem_append.mp hz with hz | hz
    · have := hx.bounds z hz
      omega
    · have := hy.bounds z hz
      omega
  · rcases Nat.le_total d e with hde | hde
    · rw [max_eq_right hde]
      exact hy.last.imp_right (List.mem_append_right xs)
    · rw [max_eq_left hde]
      exact hx.last.imp_right (List.mem_append_left ys)

theorem max?_getD (h : Extends c xs d) : xs.max?.getD c = d := by
  cases hm : xs.max? with
  | none =>
    rw [List.max?_eq_none_iff.mp hm] at h
    exact (h.last.resolve_right List.not_mem_nil).symm
  | some x =>
    obtain ⟨hx, hmax⟩ := List.max?_eq_some_iff.mp hm
    have hb := h.bounds x hx
    rcases h.last with rfl | hd
    · omega
    · exact Nat.le_antisymm hb.2 (hmax d hd)

end Extends

namespace Node

theorem ends_of_not_isLeaf (h : n.isLeaf = false) : n.ends = n.children.flatMap ends := by
  have hl : n.leaves = n.children.flatMap leaves := by
    rw [leaves_eq, h]
    rfl
  rw [ends, hl, spans, List.filterMap_flatMap, List.map_flatMap]
  rfl

theorem ends_leaf (token : Token) : (leaf c token).ends = [c + 1] := rfl

end Node

namespace Matcher

open Node (Truthful)

variable {name : String} {v : Variant} {vs : List Variant} {f : Failures} {called : List String}

/-- The texts of the lexemes. -/
def texts (m : Matcher) : List String := m.input.toList.map Token.shown

theorem length_texts : m.texts.length = m.input.size := by simp [texts]

theorem message_mismatch (what : String) (c : Nat) :
    (m.mismatch what c).message = mismatchMessage m.texts what c := by
  rw [mismatch, mismatchMessage, found, texts, List.getElem?_map, Array.getElem?_toList]
  cases m.input[c]? <;> rfl

/-- The message of a mismatch that items have come to: that of the rule that has failed last, or
else something that they call for. -/
structure Blames (m : Matcher) (called : List String) (us : List Node) (e : Mismatch) : Prop where
  inherited : ∀ u ∈ us.getLast?, u.verdict = .failure → u.error = some e.message
  own : (∀ u ∈ us.getLast?, u.verdict ≠ .failure) →
    ∃ what ∈ called, e.message = mismatchMessage m.texts what e.reached

/-- What the nodes of items tell that are matched from `c` on. -/
inductive Tells (m : Matcher) (called : List String) (c : Nat) : Outcome (List Node) → Prop
  | matched {us : List Node} {d : Nat} (he : Extends c (us.flatMap Node.ends) d)
      (hv : ∀ u ∈ us, u.verdict ≠ .failure) (hu : ∀ u ∈ us, u.Truthful m.grammar m.texts) :
      Tells m called c (.matched us d)
  | stuck {us : List Node} {e : Mismatch} (he : Extends c (us.flatMap Node.ends) e.reached)
      (hb : m.Blames called us e) (hu : ∀ u ∈ us, u.Truthful m.grammar m.texts) :
      Tells m called c (.stuck us e)
  | unfinished : Tells m called c .unfinished

/-- What the node of a rule tells that is matched from `c` on. -/
inductive TellsRule (m : Matcher) (c : Nat) : Outcome Node → Prop
  | matched {n : Node} {d : Nat} (he : Extends c n.ends d) (hv : n.verdict ≠ .failure)
      (hn : n.Truthful m.grammar m.texts) : TellsRule m c (.matched n d)
  | stuck {n : Node} {e : Mismatch} (he : Extends c n.ends e.reached) (hv : n.verdict = .failure)
      (hm : n.error = some e.message) (hn : n.Truthful m.grammar m.texts) :
      TellsRule m c (.stuck n e)
  | unfinished : TellsRule m c .unfinished

theorem truthful_leaf (token : Token) : (leaf c token).Truthful m.grammar m.texts :=
  Node.alternately_of_children nofun nofun nofun

/-- Something fails after nodes none of which does. -/
theorem Blames.prepend (hu : ∀ u ∈ us, u.verdict ≠ .failure) (h : m.Blames called ns e) :
    m.Blames called (us ++ ns) e := by
  cases ns with
  | nil =>
    rw [List.append_nil]
    exact ⟨fun u hlast hv => (hu u (List.mem_of_mem_getLast? hlast) hv).elim,
      fun _ => h.own nofun⟩
  | cons n ns =>
    have hlast : (us ++ n :: ns).getLast? = (n :: ns).getLast? := by
      rw [List.getLast?_append_of_ne_nil _ (List.cons_ne_nil n ns)]
    exact ⟨hlast ▸ h.inherited, hlast ▸ h.own⟩

theorem Tells.prepend {o : Outcome (List Node)} (he : Extends c (us.flatMap Node.ends) d)
    (hv : ∀ u ∈ us, u.verdict ≠ .failure) (hu : ∀ u ∈ us, u.Truthful m.grammar m.texts)
    (ho : Tells m called d o) : Tells m called c (o.map (us ++ ·)) := by
  cases ho with
  | matched he' hv' hu' =>
    exact .matched (List.flatMap_append ▸ he.append he') (List.forall_mem_append.mpr ⟨hv, hv'⟩)
      (List.forall_mem_append.mpr ⟨hu, hu'⟩)
  | stuck he' hb hu' =>
    exact .stuck (List.flatMap_append ▸ he.append he') (hb.prepend hv)
      (List.forall_mem_append.mpr ⟨hu, hu'⟩)
  | unfinished => exact .unfinished

theorem tells_reference {o : Outcome Node} (h : TellsRule m c o) :
    Tells m called c (o.map ([·])) := by
  cases h with
  | matched he hv hn =>
    exact .matched (by simpa using he) (List.forall_mem_singleton.mpr hv)
      (List.forall_mem_singleton.mpr hn)
  | stuck he hv hm hn =>
    refine .stuck (by simpa using he) ⟨?_, ?_⟩ (List.forall_mem_singleton.mpr hn)
    · rintro u ⟨⟩ -
      exact hm
    · exact fun h => (h _ rfl hv).elim
  | unfinished => exact .unfinished

/-- An iteration that is undone has taken no lexeme, so no extent is lost with it. -/
theorem stepwise_tells (m : Matcher) (called : List String) :
    m.Stepwise called fun c o => Tells m called c o where
  nil c := .matched (.refl c) nofun nofun
  taken {c token} _ := by
    refine .matched ⟨?_, Or.inr (by simp [Node.ends_leaf])⟩ (List.forall_mem_singleton.mpr nofun)
      (List.forall_mem_singleton.mpr (truthful_leaf token))
    simp [Node.ends_leaf]
  refused c what h :=
    .stuck (.refl c) ⟨nofun, fun _ => ⟨what, h, message_mismatch what c⟩⟩ nofun
  unfinished _ := .unfinished
  prepend hu ho := by
    cases hu with
    | matched he hv hu => exact ho.prepend he hv hu

theorem tells_sequence
    (hcall : ∀ name d, d < m.input.size → TellsRule m d (call name d).outcome)
    (items : List Item) (c : Nat) : Tells m (labels items) c (m.sequence call items c).outcome :=
  (stepwise_tells m _).sequence (fun name _ d hd => tells_reference (hcall name d hd)) items
    (fun _ h => h) c

theorem tellsRule_accepted (hs : (m.sequence call v.items c).outcome = .matched us d)
    (ht : Tells m called c (.matched us d)) :
    TellsRule m c (.matched (accepted name c v us d) d) := by
  cases ht with
  | matched he _ hu =>
    have hleaf : ∀ child ∈ (accepted name c v us d).children, child.isLeaf = false := by
      refine List.forall_mem_singleton.mpr ?_
      by_cases hb : v.isBare
      · obtain ⟨text, hi⟩ := items_of_isBare hb
        obtain ⟨token, -, -, rfl, -⟩ := matched_of_terminal (hi ▸ hs)
        simp [Node.isLeaf]
      · simp [Node.isLeaf, hb]
    have hends : (accepted name c v us d).ends = us.flatMap Node.ends := by
      rw [Node.ends_of_not_isLeaf rfl]
      have hchild := Node.ends_of_not_isLeaf (hleaf _ List.mem_cons_self)
      simpa [accepted] using hchild
    have hverdict : (accepted name c v us d).verdict ≠ .failure := by simp [accepted]
    refine .matched (hends ▸ he) hverdict
      (Node.alternately_of_children (fun hv => (hverdict hv).elim) ?_ ?_)
    · refine List.forall_mem_singleton.mpr fun hv => ?_
      dsimp only at hv
      split at hv <;> cases hv
    · exact List.forall_mem_singleton.mpr hu

/-- The attempts of a rule at `c` that have failed so far. -/
structure Attempted (m : Matcher) (name : String) (c : Nat) (f : Failures) : Prop where
  extent : Extends c (f.attempts.flatMap Node.ends) f.reached
  variants : ∀ a ∈ f.attempts, a.VariantFailure m.grammar m.texts name c
  below : ∀ a ∈ f.attempts, ∀ u ∈ a.children, u.Truthful m.grammar m.texts
  message : f.attempts.getLast?.map Node.error = f.message.map some

theorem failsFrom_attempted (hlt : c < m.input.size) {reached : Nat}
    (he : Extends c n.ends reached) (hs : n.span = Span.attempted m.input.size c reached) :
    n.FailsFrom m.texts c := by
  rw [Node.FailsFrom, hs, Span.attempted, if_pos ⟨he.le, hlt⟩, Node.extent, he.max?_getD,
    length_texts]

theorem attempted_addFailure (hlt : c < m.input.size) (hv : v ∈ m.grammar.variants name)
    (hf : Attempted m name c f) (ht : Tells m (labels v.items) c (.stuck us e)) :
    Attempted m name c (m.addFailure name c v us e f) := by
  cases ht with
  | stuck he hb hu =>
    have hends (a : Node) (ha : a.verdict = .failure) (hc : a.children = us) :
        Extends c a.ends e.reached := by
      rw [Node.ends_of_not_isLeaf (by simp [Node.isLeaf, ha]), hc]
      exact he
    refine ⟨?_, ?_, List.forall_mem_append.mpr ⟨hf.below, List.forall_mem_singleton.mpr hu⟩,
      by simp [addFailure]⟩
    · change Extends c ((f.attempts ++ [_]).flatMap Node.ends) (max f.reached e.reached)
      rw [List.flatMap_append, List.flatMap_singleton]
      exact hf.extent.union (hends _ rfl rfl)
    · refine List.forall_mem_append.mpr ⟨hf.variants, List.forall_mem_singleton.mpr ?_⟩
      refine ⟨failsFrom_attempted hlt (hends _ rfl rfl) rfl, fun u hlast hfail => ?_,
        fun hlast => ?_⟩
      · exact (hb.inherited u hlast hfail).symm
      · obtain ⟨what, hw, hm⟩ := hb.own hlast
        refine ⟨v, hv, rfl, what, hw, ?_⟩
        rw [Node.extent, (hends _ rfl rfl).max?_getD, ← hm]

theorem tellsRule_rejected (hlt : c < m.input.size) (hf : Attempted m name c f) :
    TellsRule m c (m.rejected name c f) := by
  have hends (n : Node) (hn : n.verdict = .failure) (hc : n.children = f.attempts) :
      Extends c n.ends f.reached := by
    rw [Node.ends_of_not_isLeaf (by simp [Node.isLeaf, hn]), hc]
    exact hf.extent
  refine .stuck (hends _ rfl rfl) rfl rfl (Node.alternately_of_children (fun _ => ⟨c, ?_⟩)
    (fun a ha _ => ⟨c, hf.variants a ha⟩) hf.below)
  refine ⟨failsFrom_attempted hlt (hends _ rfl rfl) rfl, fun a ha => ?_, fun hnil => ?_⟩
  · have hm := hf.message
    rw [Option.mem_def.mp ha] at hm
    obtain ⟨message, hmessage, he⟩ := Option.map_eq_some_iff.mp hm.symm
    change some (f.message.getD _) = a.error
    rw [hmessage, ← he]
    rfl
  · have hm := hf.message
    dsimp only at hnil
    rw [hnil] at hm
    change some (f.message.getD _) = _
    rw [Option.map_eq_none_iff.mp hm.symm, Option.getD_none, message_mismatch]

theorem tellsRule_choose
    (hcall : ∀ name d, d < m.input.size → TellsRule m d (call name d).outcome)
    (hlt : c < m.input.size) (hv : ∀ v ∈ vs, v ∈ m.grammar.variants name)
    (hf : Attempted m name c f) : TellsRule m c (m.choose call name c vs f).outcome := by
  induction vs generalizing f with
  | nil =>
    rw [choose_nil]
    exact tellsRule_rejected hlt hf
  | cons v rest ih =>
    obtain ⟨hv, hrest⟩ := List.forall_mem_cons.mp hv
    have ht := tells_sequence hcall v.items c
    generalize ho : (m.choose call name c (v :: rest) f).outcome = o
    cases choose_attempt ho with
    | pruned _ ho => exact ho ▸ ih hrest hf
    | matched _ hs => exact tellsRule_accepted hs (hs ▸ ht)
    | failed _ hs ho => exact ho ▸ ih hrest (attempted_addFailure hlt hv hf (hs ▸ ht))
    | unfinished => exact .unfinished

theorem tellsRule_rule (depth : Nat) (name : String) (hlt : c < m.input.size) :
    TellsRule m c (m.rule depth name c).outcome := by
  induction depth generalizing name c with
  | zero =>
    rw [rule_zero]
    exact .unfinished
  | succ depth ih =>
    rw [rule_succ]
    exact tellsRule_choose (fun name d hd => ih name hd) hlt (fun _ h => h)
      ⟨.refl c, nofun, nofun, rfl⟩

end Matcher

variable {lexicon : Lexicon} {lexemes : List Lexeme} {parsed : Parsed}

theorem texts_matcher : (matcher g lexicon lexemes).texts = lexemes.map Lexeme.text := by
  rw [Matcher.texts, toList_matcher_input, List.map_map]
  rfl

theorem truthful_parseWithin (hne : lexemes ≠ [])
    (h : parseWithin depth g lexicon lexemes = some parsed) :
    parsed.tree.root.Truthful g (lexemes.map Lexeme.text) := by
  have hlt : 0 < (matcher g lexicon lexemes).input.size := by
    rw [size_matcher_input]
    exact List.length_pos_iff.mpr hne
  have ht := Matcher.tellsRule_rule depth g.main hlt
  have htexts : (matcher g lexicon lexemes).texts = lexemes.map Lexeme.text := texts_matcher
  rw [← htexts]
  unfold parseWithin at h
  dsimp only at h
  split at h
  · rename_i root d ho
    cases h
    cases ho ▸ ht with
    | matched _ _ hn => exact hn
  · rename_i root e ho
    cases h
    cases ho ▸ ht with
    | stuck _ _ _ hn => exact hn
  · cases h

/-- The leaves of a tree are its lexemes: each shows one of them and stands at its index. -/
theorem exists_lexeme_of_leaf (h : parseWithin depth g lexicon lexemes = some parsed)
    (hn : n ∈ parsed.tree.root.leaves) :
    ∃ i x, lexemes[i]? = some x ∧ n = { description := x.text, span := some (.single i) } := by
  obtain ⟨hn, hleaf⟩ := List.mem_filter.mp hn
  obtain ⟨hv, hc⟩ : n.verdict = .pending ∧ n.children = [] := by simpa [Node.isLeaf] using hleaf
  have hnodes : n ∈ parsed.tree.nodes := List.mem_append_left _ hn
  have hp := ((consistent_parseWithin h).nodes n hnodes).pending hv
  cases hp with
  | lexeme hi =>
    obtain ⟨x, hx, rfl⟩ : ∃ x, lexemes[_]? = some x ∧ Token.ofLexeme lexicon x = _ := by
      simpa [matcher] using hi
    exact ⟨_, x, hx, rfl⟩
  | literal => cases hc

/-- In a parse of some lexemes every failed rule and every failed variant goes on to the lexeme
after the last one below it, and has the message of its last child where that has failed too. Else
its message names something that one of the items of the variant calls for, or the rule itself if no
variant was entered, and the lexeme that stands there. -/
theorem failures_truthful (g : Grammar) (lexicon : Lexicon) {lexemes : List Lexeme}
    (hne : lexemes ≠ []) (parsed : Parsed)
    (h : parse g lexicon lexemes = some parsed ∨
      ∃ depth, parseWithin depth g lexicon lexemes = some parsed) :
    parsed.tree.root.Truthful g (lexemes.map Lexeme.text) ∧
      ∀ n ∈ parsed.tree.root.leaves, ∃ i x, lexemes[i]? = some x ∧
        n = { description := x.text, span := some (.single i) } := by
  obtain ⟨depth, h⟩ : ∃ depth, parseWithin depth g lexicon lexemes = some parsed :=
    h.elim (fun h => ⟨_, parse_eq_parseWithin ▸ h⟩) id
  exact ⟨truthful_parseWithin hne h, fun n => exists_lexeme_of_leaf h⟩

/-- A list inside another, neither of which is closed. The inner one fails at the end of the input,
and the outer one has its message and goes on as far. -/
theorem failures_truthful_unclosed :
    ∃ parsed, parse lists listsLexicon (nestedList.take 3) = some parsed ∧
      parsed.tree.root.verdict = .failure ∧ parsed.tree.root.extent 0 = 3 ∧
      parsed.tree.root.leaves.map Node.description = ["(", "a", "("] ∧
      parsed.tree.root.error = some ") expected but EOF found" ∧
      parsed.tree.root.Truthful lists ["(", "a", "("] := by
  obtain ⟨parsed, hp, hv, hx, hl, he⟩ : ∃ parsed,
      parse lists listsLexicon (nestedList.take 3) = some parsed ∧
      parsed.tree.root.verdict = .failure ∧ parsed.tree.root.extent 0 = 3 ∧
      parsed.tree.root.leaves.map Node.description = ["(", "a", "("] ∧
      parsed.tree.root.error = some ") expected but EOF found" := ⟨_, rfl, rfl, rfl, rfl, rfl⟩
  have ht := failures_truthful lists listsLexicon (List.cons_ne_nil _ _) parsed (Or.inl hp)
  exact ⟨parsed, hp, hv, hx, hl, he, ht.1⟩

end Descent.Parse
