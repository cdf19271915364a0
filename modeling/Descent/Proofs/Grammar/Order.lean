import Descent.Proofs.Grammar.Acceptance
import Descent.Proofs.Parse.Indexed

/-!
The order in which rules are declared. It decides the handles of the rules and so every reference to
them, and nothing else: a text with its rules in another order compiles to the same grammar up to a
renaming of handles, and the two parse alike.
-/
namespace Descent

namespace Grammar

variable {names names' : List String} {lexicon : Lexicon} {items : List Item} {g g' : Grammar}
  {text text' : GrammarText}

theorem WellFormed.mono (h : WellFormed names lexicon items) (hn : names ⊆ names') :
    WellFormed names' lexicon items := by
  induction h with
  | nil => exact .nil
  | terminal ht ho hc hr _ ih => exact .terminal ht ho hc hr ih
  | lexical _ ih => exact .lexical ih
  | rule hm he hc _ ih => exact .rule (hn hm) he hc ih
  | many he _ _ ihb ih => exact .many he ihb ih

theorem Denotes.mono {variant : List Char} {v : Variant} (h : Denotes names lexicon variant v)
    (hn : names ⊆ names') : Denotes names' lexicon variant v :=
  ⟨h.wellFormed.mono hn, h.ne_nil, h.tokens, h.text⟩

theorem RuleDenotes.mono {t : RuleText} {r : Rule} (h : RuleDenotes names lexicon t r)
    (hn : names ⊆ names') : RuleDenotes names' lexicon t r :=
  ⟨h.name, h.variants.imp fun _ _ hv => hv.mono hn⟩

theorem perm_declared (hp : text'.rules.Perm text.rules) :
    (declared text').Perm (declared text) := hp.map _

/-- The rules of a permuted text are the same rules, permuted. -/
theorem exists_compile_of_perm (hp : text'.rules.Perm text.rules) (hm : text'.main = text.main)
    (h : compile lexicon text = .ok g) :
    ∃ g', compile lexicon text' = .ok g' ∧ g'.main = g.main ∧ g'.rules.Perm g.rules := by
  obtain ⟨hn, hrules, hmain, hmem⟩ := compile_eq_ok_iff.mp h
  have hd := perm_declared hp
  obtain ⟨rules, hr, hperm⟩ := List.perm_comp_forall₂ hp hrules
  refine ⟨⟨rules, g.main⟩,
    compile_eq_ok_iff.mpr ⟨hd.nodup_iff.mpr hn, ?_, ?_, hd.mem_iff.mpr hmem⟩, rfl, hperm⟩
  · exact hr.imp fun _ _ hr => hr.mono hd.symm.subset
  · rw [hm]
    exact hmain

theorem variants_eq_of_perm (hn : (g.rules.map Rule.name).Nodup) (hp : g'.rules.Perm g.rules)
    (name : String) : g'.variants name = g.variants name := by
  have hn' : (g'.rules.map Rule.name).Nodup := (hp.map Rule.name).nodup_iff.mpr hn
  have hrule : g'.rule? name = g.rule? name := by
    ext r
    rw [rule?_eq_some_iff hn', rule?_eq_some_iff hn, hp.mem_iff]
  rw [variants, variants, hrule]

end Grammar

namespace IndexedGrammar

mutual

/-- An item with `σ` for the handles in it. -/
def Item.renamed (σ : Nat → Nat) : Item → Item
  | .terminal text => .terminal text
  | .lexical k => .lexical k
  | .rule handle => .rule (σ handle)
  | .many body => .many (renamed σ body)

def renamed (σ : Nat → Nat) : List Item → List Item
  | [] => []
  | i :: rest => i.renamed σ :: renamed σ rest

end

def Variant.renamed (σ : Nat → Nat) (v : Variant) : Variant :=
  { v with items := IndexedGrammar.renamed σ v.items }

def Rule.renamed (σ : Nat → Nat) (r : Rule) : Rule :=
  { r with variants := r.variants.map (Variant.renamed σ) }

/-- The rules of `g` stand in `g'` at other handles, and so do all references to them. -/
structure Renamed (σ : Nat → Nat) (g g' : IndexedGrammar) : Prop where
  size : g'.rules.size = g.rules.size
  injective : ∀ i < g.rules.size, ∀ j < g.rules.size, σ i = σ j → i = j
  rules : ∀ handle < g.rules.size,
    g'.rules[σ handle]? = (g.rules[handle]?).map (Rule.renamed σ)
  names : ∀ name : String, g'.names[name]? = (g.names[name]?).map σ
  main : g'.main = σ g.main

/-- Where the rule at a handle of `g` stands in `g'`. -/
def place (g g' : IndexedGrammar) (handle : Nat) : Nat :=
  ((g.rules[handle]?).bind fun r => g'.names[r.name]?).getD handle

variable {list list' : List String} {σ : Nat → Nat}

theorem Spells.renamed {is is' : List Item} {js : List Grammar.Item} (h : Spells list is js)
    (h' : Spells list' is' js)
    (hσ : ∀ (i j : Nat) (name : String), list[i]? = some name → list'[j]? = some name → j = σ i) :
    is' = IndexedGrammar.renamed σ is := by
  induction h generalizing is' with
  | nil =>
    cases h'
    rfl
  | terminal _ ih =>
    cases h' with
    | terminal h' => rw [ih h', IndexedGrammar.renamed, Item.renamed]
  | lexical _ ih =>
    cases h' with
    | lexical h' => rw [ih h', IndexedGrammar.renamed, Item.renamed]
  | rule hn _ ih =>
    cases h' with
    | rule hn' h' => rw [ih h', hσ _ _ _ hn hn', IndexedGrammar.renamed, Item.renamed]
  | many _ _ ihb ih =>
    cases h' with
    | many hb' h' => rw [ihb hb', ih h', IndexedGrammar.renamed, Item.renamed]

theorem Rule.Spells.renamed {r r' : Rule} {p : Grammar.Rule} (h : r.Spells list p)
    (h' : r'.Spells list' p)
    (hσ : ∀ (i j : Nat) (name : String), list[i]? = some name → list'[j]? = some name → j = σ i) :
    r' = r.renamed σ := by
  have hvariants : r'.variants = r.variants.map (Variant.renamed σ) := by
    have hspelled := h.variants
    have hspelled' := h'.variants
    generalize r.variants = vs, r'.variants = vs', p.variants = ws at hspelled hspelled'
    induction hspelled generalizing vs' with
    | nil =>
      cases hspelled'
      rfl
    | @cons v w vs ws hv _ ih =>
      cases hspelled' with
      | @cons v' _ vs' _ hv' hvs' =>
        have hitems := hv.items.renamed hv'.items hσ
        have htext := hv'.text.trans hv.text.symm
        have hsame : v' = v.renamed σ := by
          cases v'
          cases hitems
          cases htext
          rfl
        rw [List.map_cons, ih vs' hvs', hsame]
  have hname := h'.name.trans h.name.symm
  cases r'
  cases hvariants
  cases hname
  rfl

variable {g g' : IndexedGrammar} {q q' : Grammar}

theorem SpellsOut.getElem?_place (h : g.SpellsOut q) (h' : g'.SpellsOut q') {handle : Nat}
    {name : String} (hn : q.names[handle]? = some name) (hm : name ∈ q'.names) :
    q'.names[g.place g' handle]? = some name := by
  obtain ⟨r, p, hr, -, hs, rfl⟩ := h.rule hn
  obtain ⟨handle', hhandle⟩ := Option.isSome_iff_exists.mp (h'.names.isSome_iff.mpr hm)
  have hplace : g.place g' handle = handle' := by
    rw [place, hr, Option.bind_some, hs.name, hhandle, Option.getD_some]
  rw [hplace]
  exact (h'.names _ _).mp hhandle

/-- Grammars that spell out the same rules in another order. -/
theorem SpellsOut.renamed (h : g.SpellsOut q) (h' : g'.SpellsOut q')
    (hp : q'.rules.Perm q.rules) (hm : q'.main = q.main) : Renamed (g.place g') g g' := by
  have hnames : q'.names.Perm q.names := hp.map _
  have hplace {handle : Nat} {name : String} (hn : q.names[handle]? = some name) :
      q'.names[g.place g' handle]? = some name :=
    h.getElem?_place h' hn (hnames.symm.subset (List.mem_of_getElem? hn))
  have hσ (i j : Nat) (name : String) (hi : q.names[i]? = some name)
      (hj : q'.names[j]? = some name) : j = g.place g' i := by
    have hsame := (h'.names _ _).mpr (hplace hi)
    exact Option.some.inj (((h'.names _ _).mpr hj).symm.trans hsame)
  have hsize : g.rules.size = q.names.length := by
    rw [Grammar.names, List.length_map]
    exact h.rules.length_eq
  have hsize' : g'.rules.size = q'.names.length := by
    rw [Grammar.names, List.length_map]
    exact h'.rules.length_eq
  constructor
  · rw [hsize, hsize', hnames.length_eq]
  · intro i hi j hj he
    have hni := List.getElem?_eq_getElem (hsize ▸ hi)
    have hnj := List.getElem?_eq_getElem (hsize ▸ hj)
    have hname := (hplace hni).symm.trans ((congrArg (q'.names[·]?) he).trans (hplace hnj))
    rw [Option.some.inj hname] at hni
    exact Option.some.inj (((h.names _ _).mpr hni).symm.trans ((h.names _ _).mpr hnj))
  · intro handle hlt
    have hn := List.getElem?_eq_getElem (hsize ▸ hlt)
    obtain ⟨r, p, hr, hp', hs, hname⟩ := h.rule hn
    obtain ⟨r', p', hr', hp'', hs', hname'⟩ := h'.rule (hplace hn)
    have hsame : p' = p := by
      have hfound := (Grammar.rule?_eq_some_iff h'.names.nodup).mpr
        ⟨List.mem_of_getElem? hp'', hname'⟩
      have hfound' := (Grammar.rule?_eq_some_iff h'.names.nodup).mpr
        ⟨hp.symm.subset (List.mem_of_getElem? hp'), hname⟩
      exact Option.some.inj (hfound.symm.trans hfound')
    subst hsame
    rw [hr', hr, Option.map_some, hs.renamed hs' hσ]
  · intro name
    cases hn : g.names[name]? with
    | none =>
      have hnot : name ∉ q.names := by
        intro hmem
        have hsome := h.names.isSome_iff.mpr hmem
        rw [hn] at hsome
        cases hsome
      have hnot' : ¬ (g'.names[name]?).isSome := fun hs =>
        hnot (hnames.subset (h'.names.isSome_iff.mp hs))
      exact Option.not_isSome_iff_eq_none.mp hnot'
    | some handle => exact (h'.names _ _).mpr (hplace ((h.names _ _).mp hn))
  · exact hσ _ _ _ h.main (h'.main.trans (congrArg some hm))

end IndexedGrammar

namespace Parse

open Grammar (Item Variant)

namespace Matcher

variable {m : Matcher} {g' : Grammar} {call : String → Nat → Step Node}

/-- The matcher for another grammar. -/
def withGrammar (m : Matcher) (g' : Grammar) : Matcher := { m with grammar := g' }

theorem iterate_withGrammar (first : Option Item) (body : Nat → Step (List Node))
    (limit c : Nat) :
    (m.withGrammar g').iterate first body limit c = m.iterate first body limit c := by
  induction limit generalizing c with
  | zero => rw [iterate_zero, iterate_zero]
  | succ limit ih =>
    rw [iterate_succ, iterate_succ]
    exact turn_congr (m := m) rfl fun _ d _ _ => ih d

theorem item_withGrammar {i : Item} (hi : i.isSingle) (c : Nat) :
    (m.withGrammar g').item call i c = m.item call i c := by
  rcases item_single m call c hi with ⟨token, hin, ht, he⟩ | ⟨ht, he⟩
  · rw [he]
    exact item_taken (m := m.withGrammar g') hin ht
  · rw [he]
    exact item_refused (m := m.withGrammar g') hi ht

theorem sequence_withGrammar (items : List Item) :
    (m.withGrammar g').sequence call items = m.sequence call items := by
  funext c
  induction items using Grammar.items_induction generalizing c with
  | nil => rw [sequence_nil, sequence_nil]
  | single i rest hi ih =>
    rw [sequence_cons, sequence_cons, item_withGrammar hi, funext ih]
  | rule name rest ih =>
    have hitem : (m.withGrammar g').item call (.rule name) c = m.item call (.rule name) c := by
      rw [item, item]
      rfl
    rw [sequence_cons, sequence_cons, hitem, funext ih]
  | many body rest ihb ih =>
    rw [sequence_cons, sequence_cons, item_many, item_many, iterate_withGrammar, funext ihb,
      funext ih]
    rfl

theorem choose_withGrammar (name : String) (c : Nat) (vs : List Variant) (f : Failures) :
    (m.withGrammar g').choose call name c vs f = m.choose call name c vs f := by
  induction vs generalizing f with
  | nil =>
    rw [choose_nil, choose_nil]
    rfl
  | cons v rest ih =>
    rw [choose, choose, sequence_withGrammar]
    simp only [ih]
    rfl

theorem rule_withGrammar (hv : ∀ name, g'.variants name = m.grammar.variants name)
    (depth : Nat) : (m.withGrammar g').rule depth = m.rule depth := by
  induction depth with
  | zero =>
    funext name c
    rw [rule_zero, rule_zero]
  | succ depth ih =>
    funext name c
    have hvariants : (m.withGrammar g').grammar.variants name = m.grammar.variants name := hv name
    rw [rule_succ, rule_succ, hvariants, ih, choose_withGrammar]

end Matcher

variable {g g' : Grammar}

theorem parseWithin_eq_of_variants (hv : ∀ name, g'.variants name = g.variants name)
    (hm : g'.main = g.main) (depth : Nat) (lexicon : Lexicon) (lexemes : List Lexeme) :
    parseWithin depth g' lexicon lexemes = parseWithin depth g lexicon lexemes := by
  have hr : (matcher g' lexicon lexemes).rule depth = (matcher g lexicon lexemes).rule depth :=
    Matcher.rule_withGrammar (m := matcher g lexicon lexemes) hv depth
  rw [parseWithin, parseWithin, hr, hm]

theorem parse_eq_of_perm (hn : g.names.Nodup) (hp : g'.rules.Perm g.rules) (hm : g'.main = g.main)
    (lexicon : Lexicon) (lexemes : List Lexeme) :
    parse g' lexicon lexemes = parse g lexicon lexemes ∧
      ∀ depth, parseWithin depth g' lexicon lexemes = parseWithin depth g lexicon lexemes := by
  have hw := fun depth => parseWithin_eq_of_variants (Grammar.variants_eq_of_perm hn hp) hm depth
    lexicon lexemes
  have hb : (matcher g' lexicon lexemes).depthBound = (matcher g lexicon lexemes).depthBound :=
    congrArg (fun n => n * ((matcher g lexicon lexemes).input.size + 1) + 1) hp.length_eq
  refine ⟨?_, hw⟩
  rw [parse_eq_parseWithin, parse_eq_parseWithin, hb]
  exact hw _

/-- Rules in another order make up the same language. The text compiles as well, and its rules are
the same with other handles throughout. Every parse of any lexemes comes to the same tree or goes on
without end as before. -/
theorem declaration_order_irrelevant {lexicon : Lexicon} {text text' : GrammarText}
    {g : IndexedGrammar} (hp : text'.rules.Perm text.rules) (hm : text'.main = text.main)
    (h : IndexedGrammar.compile lexicon text = .ok g) :
    ∃ g', IndexedGrammar.compile lexicon text' = .ok g' ∧
      IndexedGrammar.Renamed (g.place g') g g' ∧
      ∀ tables lexemes, g'.parse tables lexemes = g.parse tables lexemes ∧
        ∀ depth, g'.parseWithin depth tables lexemes = g.parseWithin depth tables lexemes := by
  obtain ⟨q, hq, hs⟩ := IndexedGrammar.exists_spelled h
  obtain ⟨q', hq', hmain, hperm⟩ := Grammar.exists_compile_of_perm hp hm hq
  obtain ⟨g', hg', hs'⟩ := IndexedGrammar.exists_spelling hq'
  refine ⟨g', hg', hs.renamed hs' hperm hmain, fun tables lexemes => ?_⟩
  obtain ⟨hparse, hwithin⟩ := parse_eq_of_perm hs.names.nodup hperm hmain tables lexemes
  constructor
  · rw [IndexedGrammar.parse_spelled hs, IndexedGrammar.parse_spelled hs', hparse]
  · intro depth
    rw [IndexedGrammar.parseWithin_spelled hs, IndexedGrammar.parseWithin_spelled hs', hwithin]

open Grammar (pairs pairsText) in
/-- The rule of pairs after that of their parts, although it is the main one. -/
theorem declaration_order_irrelevant_pairs :
    ∃ g g', IndexedGrammar.compile (.seeded [] ["(", ",", ")"]) pairsText = .ok g ∧
      IndexedGrammar.compile (.seeded [] ["(", ",", ")"])
        { pairsText with rules := pairsText.rules.reverse } = .ok g' ∧
      g.names["Pair"]? = some 0 ∧ g'.names["Pair"]? = some 1 ∧ g.place g' 0 = 1 ∧
      ∀ tables lexemes, g'.parse tables lexemes = g.parse tables lexemes := by
  have hc : Grammar.compile (.seeded [] ["(", ",", ")"]) pairsText = .ok pairs := by cbv
  have hc' : Grammar.compile (.seeded [] ["(", ",", ")"])
      { pairsText with rules := pairsText.rules.reverse } = .ok ⟨pairs.rules.reverse, "Pair"⟩ := by
    cbv
  have hp : ({ pairsText with rules := pairsText.rules.reverse } : GrammarText).rules.Perm
      pairsText.rules := List.reverse_perm pairsText.rules
  obtain ⟨g, hg, hs⟩ := IndexedGrammar.exists_spelling hc
  obtain ⟨g', hg', hrenamed, hparse⟩ := declaration_order_irrelevant hp rfl hg
  obtain ⟨q, hq, hs'⟩ := IndexedGrammar.exists_spelled hg'
  cases hc'.symm.trans hq
  have hpair : g.names["Pair"]? = some 0 := (hs.names _ _).mpr rfl
  have hpair' : g'.names["Pair"]? = some 1 := (hs'.names _ _).mpr rfl
  have hplace : g.place g' 0 = 1 := by
    have hname := hrenamed.names "Pair"
    rw [hpair, hpair'] at hname
    exact (Option.some.inj hname).symm
  exact ⟨g, g', hg, hg', hpair, hpair', hplace, fun tables lexemes => (hparse tables lexemes).1⟩

end Parse

end Descent
