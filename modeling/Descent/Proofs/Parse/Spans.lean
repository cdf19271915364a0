import Descent.Proofs.Parse.Termination

/-!
The spans of a parse tree. Below a variant they follow one another without a gap, whether it has
matched or failed; a node lies inside the one above it; the main rule and the leftover lexemes share
out the input.
-/
namespace Descent.Parse

open Grammar (Item Variant)

/-- Spans that follow one another without gap or overlap, from one lexeme up to another. -/
def Tiles : Nat → List Span → Nat → Prop
  | b, [], e => b = e
  | b, s :: rest, e => s.first = b ∧ s.first ≤ s.last ∧ Tiles (s.last + 1) rest e

/-- The spans of the nodes that have one. -/
def spans (ns : List Node) : List Span := ns.filterMap Node.span

/-- A node in a tree over `size` lexemes: its span is a range of them and takes in those of its
children, and a failure has one. -/
structure Node.Fits (size : Nat) (n : Node) : Prop where
  bounds : ∀ s ∈ n.span, s.first ≤ s.last ∧ s.last < size
  inside : ∀ child ∈ n.children, ∀ s ∈ child.span,
    ∃ p ∈ n.span, p.first ≤ s.first ∧ s.last ≤ p.last
  present : 0 < size → n.verdict = .failure → n.span.isSome

/-- The node of a variant: the spans of its children follow one another from its own beginning on,
and up to its end if it has matched. -/
structure Node.FitsVariant (g : Grammar) (n : Node) : Prop where
  described : ∃ name, ∃ v ∈ g.variants name, n.description = name ++ " ::= " ++ v.text
  tiled : ∀ p ∈ n.span, ∃ e, Tiles p.first (spans n.children) e ∧
    (n.verdict ≠ .failure → e = p.last + 1)

/-- A tree over `size` lexemes. The main rule stands at depth zero and below each rule its variants,
so the variants are the nodes at odd depths. -/
structure Tree.Fits (g : Grammar) (size : Nat) (t : Tree) : Prop where
  nodes : ∀ top ∈ t.tops, ∀ p ∈ top.preorder 0, p.2.Fits size
  variants : ∀ p ∈ t.root.preorder 0, p.1 % 2 = 1 → p.2.FitsVariant g
  shared : ∃ next, Tiles 0 t.root.span.toList next ∧ Tiles next (spans t.ignored.toList) size ∧
    (t.ignored.isSome ↔ next < size)

variable {g : Grammar} {b c d e size start reached next : Nat} {ss ts : List Span}
  {us ns : List Node} {n : Node}

theorem Tiles.le (h : Tiles b ss e) : b ≤ e := by
  induction ss generalizing b with
  | nil => exact Nat.le_of_eq h
  | cons s rest ih =>
    obtain ⟨rfl, hs, hr⟩ := h
    have := ih hr
    omega

theorem Tiles.append (hs : Tiles b ss d) (ht : Tiles d ts e) : Tiles b (ss ++ ts) e := by
  induction ss generalizing b with
  | nil =>
    obtain rfl : b = d := hs
    exact ht
  | cons s rest ih =>
    obtain ⟨hb, hl, hr⟩ := hs
    exact ⟨hb, hl, ih hr⟩

theorem Tiles.within (h : Tiles b ss e) {s : Span} (hs : s ∈ ss) :
    b ≤ s.first ∧ s.first ≤ s.last ∧ s.last < e := by
  induction ss generalizing b with
  | nil => cases hs
  | cons t rest ih =>
    obtain ⟨rfl, hl, hr⟩ := h
    have hle := hr.le
    rcases List.mem_cons.mp hs with rfl | hs
    · omega
    · have := ih hr hs
      omega

theorem tiles_consumed (h : b ≤ e) : Tiles b (Span.consumed b e).toList e := by
  unfold Span.consumed
  split
  · exact ⟨rfl, by change b ≤ e - 1; omega, by change e - 1 + 1 = e; omega⟩
  · change b = e
    omega

/-- A span from the first lexeme on, or none, ends where what is left over begins. -/
theorem tiles_span {span : Option Span} (h : ∀ s ∈ span, s.first = 0) :
    Tiles 0 span.toList (span.elim 0 (·.last + 1)) := by
  cases span with
  | none => rfl
  | some s =>
    have hs := h s rfl
    exact ⟨hs, hs ▸ Nat.zero_le _, rfl⟩

theorem mem_consumed {s : Span} :
    s ∈ Span.consumed b e ↔ b < e ∧ s = ⟨b, e - 1⟩ := by
  simp [Span.consumed, eq_comm]

theorem mem_attempted {s : Span} : s ∈ Span.attempted size start reached ↔
    (start ≤ reached ∧ start < size) ∧ s = ⟨start, min reached (size - 1)⟩ := by
  simp [Span.attempted, eq_comm]

@[simp] theorem spans_nil : spans [] = [] := rfl

@[simp] theorem spans_append : spans (us ++ ns) = spans us ++ spans ns := List.filterMap_append

@[simp] theorem spans_singleton : spans [n] = n.span.toList := by
  cases h : n.span <;> simp [spans, h]

theorem mem_spans {s : Span} (hn : n ∈ ns) (hs : s ∈ n.span) : s ∈ spans ns :=
  List.mem_filterMap.mpr ⟨n, hn, hs⟩

theorem Node.mem_preorder {p : Nat × Node} :
    p ∈ n.preorder d ↔ p = (d, n) ∨ ∃ child ∈ n.children, p ∈ child.preorder (d + 1) := by
  have hall : ∀ ns : List Node,
      p ∈ preorderAll (d + 1) ns ↔ ∃ child ∈ ns, p ∈ child.preorder (d + 1) := by
    intro ns
    induction ns with
    | nil => simp [preorderAll]
    | cons n rest ih => simp [preorderAll, ih]
  obtain ⟨description, verdict, span, children, error⟩ := n
  rw [preorder, List.mem_cons, hall]

/-- A rule or a lexeme with all that is below it. Two levels down there are rules and lexemes
again. -/
def Node.Settled (g : Grammar) (size : Nat) (n : Node) : Prop :=
  ∀ d, d % 2 = 0 → ∀ p ∈ n.preorder d, p.2.Fits size ∧ (p.1 % 2 = 1 → p.2.FitsVariant g)

/-- The node of a variant whose children are settled. -/
structure Node.SettledVariant (g : Grammar) (size : Nat) (n : Node) : Prop where
  fits : n.Fits size
  variant : n.FitsVariant g
  children : ∀ child ∈ n.children, child.Settled g size

theorem Node.settled_of_variants (hn : n.Fits size)
    (hv : ∀ v ∈ n.children, v.SettledVariant g size) : n.Settled g size := by
  intro d hd p hp
  rcases mem_preorder.mp hp with rfl | ⟨v, hvn, hp⟩
  · exact ⟨hn, fun h => by dsimp only at h; omega⟩
  · rcases mem_preorder.mp hp with rfl | ⟨u, hu, hp⟩
    · exact ⟨(hv v hvn).fits, fun _ => (hv v hvn).variant⟩
    · exact (hv v hvn).children u hu (d + 1 + 1) (by omega) p hp

namespace Matcher

variable {m : Matcher} {call : String → Nat → Step Node} {f : Failures} {name : String} {v : Variant}
  {vs : List Variant}

theorem settled_leaf {token : Token} (hc : c < size) : (leaf c token).Settled g size := by
  apply Node.settled_of_variants
  · refine ⟨fun s hs => ?_, nofun, nofun⟩
    obtain rfl := Option.mem_some.mp hs
    exact ⟨Nat.le_refl c, hc⟩
  · nofun

/-- Where the nodes of items stand that are matched from `c` on. What has failed goes on to the
lexeme that stopped it at most. -/
inductive Placed (m : Matcher) (c : Nat) : Outcome (List Node) → Prop
  | matched {us : List Node} {d : Nat} (ht : Tiles c (spans us) d) (hd : d ≤ m.input.size)
      (hu : ∀ u ∈ us, u.Settled m.grammar m.input.size) : Placed m c (.matched us d)
  | stuck {us : List Node} {e : Mismatch} {d : Nat} (ht : Tiles c (spans us) d)
      (hd : d ≤ m.input.size) (hu : ∀ u ∈ us, u.Settled m.grammar m.input.size)
      (hc : c ≤ e.reached) (hr : d ≤ e.reached + 1) : Placed m c (.stuck us e)
  | unfinished : Placed m c .unfinished

/-- The node of a rule that is matched from `c` on. -/
inductive PlacedRule (m : Matcher) (c : Nat) : Outcome Node → Prop
  | matched {n : Node} {d : Nat} (hcd : c ≤ d) (hd : d ≤ m.input.size)
      (hs : n.span = Span.consumed c d) (hn : n.Settled m.grammar m.input.size) :
      PlacedRule m c (.matched n d)
  | stuck {n : Node} {e : Mismatch} (hc : c ≤ e.reached)
      (hs : n.span = Span.attempted m.input.size c e.reached)
      (hn : n.Settled m.grammar m.input.size) : PlacedRule m c (.stuck n e)
  | unfinished : PlacedRule m c .unfinished

theorem Placed.nil (hc : c ≤ m.input.size) : Placed m c (.matched [] c) :=
  .matched rfl hc nofun

theorem Placed.refused {what : String} (hc : c ≤ m.input.size) :
    Placed m c (.stuck [] (m.mismatch what c)) :=
  .stuck rfl hc nofun le_rfl (Nat.le_succ c)

/-- Nodes placed up to a lexeme, and those that are placed from there on. -/
theorem Placed.prepend {o : Outcome (List Node)} (ht : Tiles c (spans us) d)
    (hu : ∀ u ∈ us, u.Settled m.grammar m.input.size) (ho : Placed m d o) :
    Placed m c (o.map (us ++ ·)) := by
  have hcd := ht.le
  cases ho with
  | matched ht' hd' hu' =>
    refine .matched (spans_append ▸ ht.append ht') hd' ?_
    intro u h
    exact (List.mem_append.mp h).elim (hu u) (hu' u)
  | stuck ht' hd' hu' hc' hr' =>
    refine .stuck (spans_append ▸ ht.append ht') hd' ?_ (by omega) hr'
    intro u h
    exact (List.mem_append.mp h).elim (hu u) (hu' u)
  | unfinished => exact .unfinished

theorem placed_reference (hlt : c < m.input.size) {o : Outcome Node} (h : PlacedRule m c o) :
    Placed m c (o.map ([·])) := by
  cases h with
  | matched hcd hd hs hn =>
    refine .matched ?_ hd (by simpa using hn)
    rw [spans_singleton, hs]
    exact tiles_consumed hcd
  | @stuck n e hc hs hn =>
    have ht : Tiles c (spans [n]) (min e.reached (m.input.size - 1) + 1) := by
      rw [spans_singleton, hs, Span.attempted, if_pos ⟨hc, hlt⟩]
      exact ⟨rfl, by change c ≤ min _ _; omega, rfl⟩
    exact .stuck ht (by omega) (by simpa using hn) hc (by omega)
  | unfinished => exact .unfinished

theorem stepwise_placed (m : Matcher) (labels : List String) :
    m.Stepwise labels fun c o => c ≤ m.input.size → Placed m c o where
  nil _ := .nil
  taken {c token} h _ := by
    have hlt := (Array.getElem?_eq_some_iff.mp h).1
    refine .matched ⟨rfl, le_rfl, rfl⟩ hlt ?_
    simpa using settled_leaf hlt
  refused _ _ _ := .refused
  unfinished _ _ := .unfinished
  prepend hu ho hc := by
    cases hu hc with
    | matched ht hd hus => exact (ho hd).prepend ht hus

theorem placed_sequence
    (hcall : ∀ name d, d < m.input.size → PlacedRule m d (call name d).outcome)
    (items : List Item) (hc : c ≤ m.input.size) :
    Placed m c (m.sequence call items c).outcome :=
  (stepwise_placed m _).sequence (fun name _ d hd _ => placed_reference hd (hcall name d hd)) items
    (fun _ h => h) c hc

/-- A span that reaches as far as the nodes takes them in. -/
theorem inside_of_tiles {span : Option Span} (ht : Tiles c (spans us) d)
    (h : c < d → ∃ p ∈ span, p.first = c ∧ d ≤ p.last + 1) :
    ∀ u ∈ us, ∀ s ∈ u.span, ∃ p ∈ span, p.first ≤ s.first ∧ s.last ≤ p.last := by
  intro u hu s hs
  have hw := ht.within (mem_spans hu hs)
  obtain ⟨p, hp, rfl, hd⟩ := h (by omega)
  exact ⟨p, hp, hw.1, by omega⟩

theorem settledVariant_matched (kind : Verdict) (hk : kind ≠ .failure)
    (hv : v ∈ m.grammar.variants name) (ht : Tiles c (spans us) d) (hd : d ≤ m.input.size)
    (hu : ∀ u ∈ us, u.Settled m.grammar m.input.size) :
    Node.SettledVariant m.grammar m.input.size
      { description := describe name v, verdict := kind, span := Span.consumed c d,
        children := us } where
  fits := by
    refine ⟨fun s hs => ?_, inside_of_tiles ht fun hcd => ?_, fun _ h => (hk h).elim⟩
    · obtain ⟨hcd, rfl⟩ := mem_consumed.mp hs
      dsimp only
      omega
    · exact ⟨_, mem_consumed.mpr ⟨hcd, rfl⟩, rfl, by dsimp only; omega⟩
  variant := by
    refine ⟨⟨name, v, hv, rfl⟩, fun p hp => ?_⟩
    obtain ⟨hcd, rfl⟩ := mem_consumed.mp hp
    exact ⟨d, ht, fun _ => by dsimp only; omega⟩
  children := hu

theorem settledVariant_failed {message : String} (hv : v ∈ m.grammar.variants name)
    (hlt : 0 < m.input.size → c < m.input.size) (ht : Tiles c (spans us) d)
    (hd : d ≤ m.input.size) (hu : ∀ u ∈ us, u.Settled m.grammar m.input.size)
    (hc : c ≤ reached) (hr : d ≤ reached + 1) :
    Node.SettledVariant m.grammar m.input.size
      { description := describe name v, verdict := .failure,
        span := Span.attempted m.input.size c reached, children := us,
        error := some message } where
  fits := by
    refine ⟨fun s hs => ?_, inside_of_tiles ht fun hcd => ?_, fun h _ => ?_⟩
    · obtain ⟨_, rfl⟩ := mem_attempted.mp hs
      dsimp only
      omega
    · exact ⟨_, mem_attempted.mpr ⟨⟨hc, by omega⟩, rfl⟩, rfl, by dsimp only; omega⟩
    · have := hlt h
      exact Option.isSome_of_mem (mem_attempted.mpr ⟨⟨hc, this⟩, rfl⟩)
  variant := by
    refine ⟨⟨name, v, hv, rfl⟩, fun p hp => ?_⟩
    obtain ⟨_, rfl⟩ := mem_attempted.mp hp
    exact ⟨d, ht, fun h => (h rfl).elim⟩
  children := hu

/-- The attempts of a rule at `c` that have failed so far. -/
structure FailedAt (m : Matcher) (c : Nat) (f : Failures) : Prop where
  reached : c ≤ f.reached
  attempts : ∀ v ∈ f.attempts, v.SettledVariant m.grammar m.input.size ∧
    ∃ r ≤ f.reached, v.span = Span.attempted m.input.size c r

theorem failedAt_addFailure {e : Mismatch} (hf : FailedAt m c f)
    (hv : v ∈ m.grammar.variants name) (hlt : 0 < m.input.size → c < m.input.size)
    (hp : Placed m c (.stuck us e)) : FailedAt m c (m.addFailure name c v us e f) := by
  cases hp with
  | stuck ht hd hu hc hr =>
    refine ⟨le_max_of_le_left hf.reached, fun w hw => ?_⟩
    rcases List.mem_append.mp hw with hw | hw
    · obtain ⟨hs, r, hr, he⟩ := hf.attempts w hw
      exact ⟨hs, r, le_max_of_le_left hr, he⟩
    · obtain rfl := List.mem_singleton.mp hw
      exact ⟨settledVariant_failed hv hlt ht hd hu hc hr, _, le_max_right _ _, rfl⟩

theorem placedRule_rejected (hf : FailedAt m c f) (hlt : 0 < m.input.size → c < m.input.size) :
    PlacedRule m c (m.rejected name c f) := by
  refine .stuck hf.reached rfl (Node.settled_of_variants ⟨?_, ?_, ?_⟩ fun v hv =>
    (hf.attempts v hv).1)
  · intro s hs
    obtain ⟨_, rfl⟩ := mem_attempted.mp hs
    dsimp only
    omega
  · intro v hv s hs
    obtain ⟨_, r, hr, he⟩ := hf.attempts v hv
    obtain ⟨hc, rfl⟩ := mem_attempted.mp (he ▸ hs)
    exact ⟨_, mem_attempted.mpr ⟨⟨hf.reached, hc.2⟩, rfl⟩, le_rfl, by dsimp only; omega⟩
  · intro h _
    exact Option.isSome_of_mem (mem_attempted.mpr ⟨⟨hf.reached, hlt h⟩, rfl⟩)

theorem placedRule_accepted (hv : v ∈ m.grammar.variants name)
    (hp : Placed m c (.matched us d)) : PlacedRule m c (.matched (accepted name c v us d) d) := by
  cases hp with
  | matched ht hd hu =>
    have hs := settledVariant_matched (if v.isBare then .pending else .success)
      (by split <;> simp) hv ht hd hu
    refine .matched ht.le hd rfl (Node.settled_of_variants ⟨hs.fits.bounds, ?_, nofun⟩ ?_)
    · intro w hw s hs
      obtain rfl := List.mem_singleton.mp hw
      exact ⟨s, hs, le_rfl, le_rfl⟩
    · intro w hw
      obtain rfl := List.mem_singleton.mp hw
      exact hs

theorem placedRule_choose
    (hcall : ∀ name d, d < m.input.size → PlacedRule m d (call name d).outcome)
    (hv : ∀ v ∈ vs, v ∈ m.grammar.variants name) (hc : c ≤ m.input.size)
    (hlt : 0 < m.input.size → c < m.input.size) (hf : FailedAt m c f) :
    PlacedRule m c (m.choose call name c vs f).outcome := by
  induction vs generalizing f with
  | nil =>
    rw [choose_nil]
    exact placedRule_rejected hf hlt
  | cons v rest ih =>
    have hrest : ∀ w ∈ rest, w ∈ m.grammar.variants name := by
      intro w hw
      exact hv w (List.mem_cons_of_mem v hw)
    have hp := placed_sequence hcall v.items hc
    generalize ho : (m.choose call name c (v :: rest) f).outcome = o
    cases choose_attempt ho with
    | pruned _ ho => exact ho ▸ ih hrest hf
    | matched _ hs => exact placedRule_accepted (hv v List.mem_cons_self) (hs ▸ hp)
    | failed _ hs ho =>
      exact ho ▸ ih hrest (failedAt_addFailure hf (hv v List.mem_cons_self) hlt (hs ▸ hp))
    | unfinished => exact .unfinished

/-- A rule is tried where a lexeme is left, the main rule also where there are none at all. -/
theorem placedRule_rule (depth : Nat) (hc : c ≤ m.input.size)
    (hlt : 0 < m.input.size → c < m.input.size) :
    PlacedRule m c (m.rule depth name c).outcome := by
  induction depth generalizing name c with
  | zero =>
    rw [rule_zero]
    exact .unfinished
  | succ depth ih =>
    rw [rule_succ]
    exact placedRule_choose (fun name d hd => ih (Nat.le_of_lt hd) fun _ => hd) (fun _ h => h) hc
      hlt ⟨le_rfl, nofun⟩

end Matcher

variable {lexicon : Lexicon} {lexemes : List Lexeme}

theorem tiles_ignored (hn : next ≤ lexemes.length) :
    Tiles next (spans (ignoredNode? lexemes next).toList) lexemes.length ∧
      ((ignoredNode? lexemes next).isSome ↔ next < lexemes.length) := by
  by_cases h : next < lexemes.length
  · simp only [ignoredNode?, List.getElem?_eq_getElem h, Option.map_some, Option.toList_some,
      spans_singleton, Option.isSome_some, h, and_true]
    exact ⟨rfl, by dsimp only; omega, by change lexemes.length - 1 + 1 = _; omega⟩
  · simp only [ignoredNode?, List.getElem?_eq_none (Nat.le_of_not_lt h), Option.map_none,
      Option.toList_none, spans_nil, Option.isSome_none, h, Bool.false_eq_true, and_true]
    exact Nat.le_antisymm hn (Nat.le_of_not_lt h)

theorem fits_ignored (h : n ∈ ignoredNode? lexemes next) :
    n.Fits lexemes.length ∧ n.children = [] := by
  obtain ⟨x, hx, rfl⟩ := Option.map_eq_some_iff.mp h
  obtain ⟨hlt, _⟩ := List.getElem?_eq_some_iff.mp hx
  refine ⟨⟨fun s hs => ?_, nofun, fun _ _ => rfl⟩, rfl⟩
  obtain rfl := Option.mem_some.mp hs
  dsimp only
  omega

/-- The root begins with the first lexeme, and the node of the leftover lexemes right after it. -/
theorem fits_ofRoot {root : Node} {events : List Event} (hn : root.Settled g lexemes.length)
    (hs : ∀ s ∈ root.span, s.first = 0) :
    (Parsed.ofRoot lexemes root events).tree.Fits g lexemes.length := by
  have hb := (hn 0 rfl _ (Node.mem_preorder.mpr (.inl rfl))).1.bounds
  refine ⟨fun top ht p hp => ?_, fun p hp => (hn 0 rfl p hp).2, ?_⟩
  · rcases List.mem_cons.mp ht with rfl | ht
    · exact (hn 0 rfl p hp).1
    · obtain ⟨hf, hc⟩ := fits_ignored (Option.mem_toList.mp ht)
      rcases Node.mem_preorder.mp hp with rfl | ⟨child, h, _⟩
      · exact hf
      · simp [hc] at h
  · refine ⟨root.span.elim 0 (·.last + 1), tiles_span hs, tiles_ignored ?_⟩
    cases h : root.span with
    | none => exact Nat.zero_le _
    | some s => exact (hb s h).2

theorem fits_parseWithin {depth : Nat} {parsed : Parsed}
    (h : parseWithin depth g lexicon lexemes = some parsed) :
    parsed.tree.Fits g lexemes.length := by
  have hp := @Matcher.placedRule_rule 0 (matcher g lexicon lexemes) g.main depth
    (Nat.zero_le _) id
  unfold parseWithin at h
  dsimp only at h
  split at h
  · rename_i root d ho
    cases h
    cases ho ▸ hp with
    | matched _ _ hs hn =>
      refine fits_ofRoot (by simpa using hn) fun s h => ?_
      obtain ⟨_, rfl⟩ := mem_consumed.mp (hs ▸ h)
      rfl
  · rename_i root e ho
    cases h
    cases ho ▸ hp with
    | stuck _ hs hn =>
      refine fits_ofRoot (by simpa using hn) fun s h => ?_
      obtain ⟨_, rfl⟩ := mem_attempted.mp (hs ▸ h)
      rfl
  · cases h

/-- Whether a parse succeeds or fails, at whatever depth it comes to an end, the spans in its tree
fit: into the input, into one another, side by side below a variant, and the root with what is left
over. -/
theorem parse_spans_fit (g : Grammar) (lexicon : Lexicon) (lexemes : List Lexeme) :
    (∀ parsed, parse g lexicon lexemes = some parsed → parsed.tree.Fits g lexemes.length) ∧
    ∀ depth parsed, parseWithin depth g lexicon lexemes = some parsed →
      parsed.tree.Fits g lexemes.length := by
  constructor
  · intro parsed h
    exact fits_parseWithin (parse_eq_parseWithin ▸ h)
  · intro depth parsed h
    exact fits_parseWithin h

/-- Two lists are begun and none is closed: both rules fail beyond the last lexeme. -/
theorem parse_spans_fit_unclosed :
    ∃ parsed, parse lists listsLexicon (nestedList.take 3) = some parsed ∧
      parsed.tree.root.verdict = .failure ∧ parsed.tree.root.span = some ⟨0, 2⟩ ∧
      parsed.tree.ignored.isNone ∧ parsed.tree.Fits lists 3 := by
  obtain ⟨parsed, hp, hv, hs, hi⟩ : ∃ parsed,
      parse lists listsLexicon (nestedList.take 3) = some parsed ∧
      parsed.tree.root.verdict = .failure ∧ parsed.tree.root.span = some ⟨0, 2⟩ ∧
      parsed.tree.ignored.isNone := ⟨_, rfl, rfl, rfl, rfl⟩
  exact ⟨parsed, hp, hv, hs, hi, (parse_spans_fit lists listsLexicon (nestedList.take 3)).1 _ hp⟩

end Descent.Parse
