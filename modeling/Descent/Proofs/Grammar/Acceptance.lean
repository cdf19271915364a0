import Descent.Proofs.Grammar.Compiled
import Descent.Proofs.Grammar.Printing
import Mathlib

/-!
When the text of a grammar compiles: the names of its rules are distinct, the main one is among
them, and every variant stands for well-formed items, which the compiled grammar holds.
-/
namespace Descent.Grammar

variable {names : List String} {lexicon : Lexicon} {s : Scope} {text : GrammarText} {g : Grammar}

/-- A variant of well-formed items that a text stands for. -/
structure Denotes (names : List String) (lexicon : Lexicon) (text : List Char) (v : Variant) :
    Prop where
  wellFormed : WellFormed names lexicon v.items
  ne_nil : v.items ≠ []
  tokens : itemTokens v.items = Grammar.tokens text
  text : v.text = " ".intercalate (itemTokens v.items)

theorem Scope.variant_eq_ok_iff {text : List Char} {v : Variant} :
    s.variant text = .ok v ↔ Denotes s.names s.lexicon text v := by
  unfold Scope.variant
  dsimp only
  constructor
  · intro h
    split at h
    · cases h
    · rename_i hne
      obtain ⟨items, hi, rfl⟩ := map_eq_ok_iff.mp h
      obtain ⟨hw, ht⟩ := Scope.items_eq_ok_iff.mp hi
      refine ⟨hw, mt itemTokens_eq_nil_iff.mpr ?_, ht, by rw [ht]⟩
      simpa [ht] using hne
  · rintro ⟨hw, hne, ht, htext⟩
    have htne : ¬ (Grammar.tokens text).isEmpty := by
      rw [← ht]
      simpa using mt itemTokens_eq_nil_iff.mp hne
    rw [if_neg htne]
    refine map_eq_ok_iff.mpr ⟨v.items, Scope.items_eq_ok_iff.mpr ⟨hw, ht⟩, ?_⟩
    rw [← ht, ← htext]

/-- A rule with the trimmed name of its text, whose variants are what the text's variants stand
for. -/
structure RuleDenotes (names : List String) (lexicon : Lexicon) (t : RuleText) (r : Rule) :
    Prop where
  name : r.name = Text.trim t.name
  variants : List.Forall₂ (Denotes names lexicon) (t.body.toList.splitOn '|') r.variants

theorem compileRule_eq_ok_iff {t : RuleText} {r : Rule} :
    compileRule names lexicon t = .ok r ↔ RuleDenotes names lexicon t r := by
  unfold compileRule
  rw [map_eq_ok_iff]
  simp only [mapM_eq_ok_iff, Scope.variant_eq_ok_iff]
  constructor
  · rintro ⟨vs, hvs, rfl⟩
    exact ⟨rfl, hvs⟩
  · rintro ⟨hn, hvs⟩
    exact ⟨r.variants, hvs, by rw [← hn]⟩

/-- The trimmed names of a grammar's rules. -/
def declared (text : GrammarText) : List String := text.rules.map fun r => Text.trim r.name

theorem firstRepeat?_eq_none_iff {seen : List String} : firstRepeat? seen names = none ↔
    names.Nodup ∧ ∀ name ∈ names, name ∉ seen := by
  induction names generalizing seen with
  | nil => simp [firstRepeat?]
  | cons name rest ih =>
    unfold firstRepeat?
    split
    · simp_all
    · rename_i hs
      rw [ih]
      simp only [List.nodup_cons, List.mem_cons, not_or, forall_eq_or_imp]
      grind

/-- A text that compiles stands for one grammar, and every other text for none. -/
theorem compile_eq_ok_iff :
    compile lexicon text = .ok g ↔
      (declared text).Nodup ∧
      List.Forall₂ (RuleDenotes (declared text) lexicon) text.rules g.rules ∧
      g.main = Text.trim text.main ∧ g.main ∈ declared text := by
  have hnone : firstRepeat? [] (declared text) = none ↔ (declared text).Nodup := by
    simp [firstRepeat?_eq_none_iff]
  constructor
  · intro h
    have hrules := rules_of_compile h
    rw [mapM_eq_ok_iff] at hrules
    simp only [compileRule_eq_ok_iff] at hrules
    unfold compile at h
    dsimp only at h
    split at h
    · cases h
    · rename_i hn
      obtain ⟨rules, -, h⟩ := bind_eq_ok_iff.mp h
      split at h
      · rename_i hm
        cases h
        exact ⟨hnone.mp hn, hrules, rfl, hm⟩
      · cases h
  · rintro ⟨hn, hrules, hmain, hm⟩
    have hr : text.rules.mapM (compileRule (declared text) lexicon) = .ok g.rules := by
      rw [mapM_eq_ok_iff]
      simpa only [compileRule_eq_ok_iff] using hrules
    unfold compile
    dsimp only
    rw [← declared, hnone.mpr hn]
    dsimp only
    rw [hr, ← hmain]
    exact if_pos hm

theorem map_name_of_ruleDenotes {ts : List RuleText} {rs : List Rule}
    (h : List.Forall₂ (RuleDenotes names lexicon) ts rs) :
    rs.map Rule.name = ts.map fun t => Text.trim t.name := by
  induction h with
  | nil => rfl
  | cons ht _ ih => rw [List.map_cons, List.map_cons, ht.name, ih]

/-- Where names are distinct a name has one index, that of its rule. -/
theorem find?_eq_some_iff_getElem? (hn : (g.rules.map Rule.name).Nodup) {name : String} {i : Nat} :
    g.find? name = some i ↔ ∃ r, g.rules[i]? = some r ∧ r.name = name := by
  unfold find?
  rw [List.findIdx?_eq_some_iff_getElem]
  constructor
  · rintro ⟨hi, hname, -⟩
    exact ⟨g.rules[i], List.getElem?_eq_getElem hi, of_decide_eq_true hname⟩
  · rintro ⟨r, hr, rfl⟩
    obtain ⟨hi, rfl⟩ := List.getElem?_eq_some_iff.mp hr
    refine ⟨hi, decide_eq_true rfl, fun j hj he => ?_⟩
    have hsame : (g.rules.map Rule.name)[j]? = (g.rules.map Rule.name)[i]? := by
      have hj : j < g.rules.length := Nat.lt_trans hj hi
      simpa [List.getElem?_eq_getElem hi, List.getElem?_eq_getElem hj] using he
    have := (List.getElem?_inj (by simp; omega) hn).mp hsame
    omega

theorem rule?_eq_some_iff (hn : (g.rules.map Rule.name).Nodup) {name : String} {r : Rule} :
    g.rule? name = some r ↔ r ∈ g.rules ∧ r.name = name := by
  constructor
  · intro h
    exact ⟨List.mem_of_find?_eq_some h, by simpa using List.find?_some h⟩
  · rintro ⟨hr, rfl⟩
    cases hf : g.rule? r.name with
    | none => exact absurd (List.find?_eq_none.mp hf r hr) (by simp)
    | some s =>
      have hs : s ∈ g.rules := List.mem_of_find?_eq_some hf
      have hname : s.name = r.name := by simpa using List.find?_some hf
      rw [List.inj_on_of_nodup_map hn hs hr hname]

/-- A variant's text stands for something if it has tokens, and they are those of well-formed
items. -/
theorem exists_denotes_iff {variant : List Char} :
    (∃ v, Denotes names lexicon variant v) ↔
      Grammar.tokens variant ≠ [] ∧
      ∃ items, WellFormed names lexicon items ∧ itemTokens items = Grammar.tokens variant := by
  constructor
  · rintro ⟨v, h⟩
    refine ⟨?_, v.items, h.wellFormed, h.tokens⟩
    rw [← h.tokens]
    exact mt itemTokens_eq_nil_iff.mp h.ne_nil
  · rintro ⟨hne, items, hw, ht⟩
    rw [← ht] at hne
    exact ⟨⟨items, " ".intercalate (itemTokens items)⟩, hw, mt itemTokens_eq_nil_iff.mpr hne, ht,
      rfl⟩

theorem exists_ruleDenotes_iff {t : RuleText} :
    (∃ r, RuleDenotes names lexicon t r) ↔
      ∀ variant ∈ t.body.toList.splitOn '|', Grammar.tokens variant ≠ [] ∧
        ∃ items, WellFormed names lexicon items ∧ itemTokens items = Grammar.tokens variant := by
  simp only [← exists_denotes_iff, ← exists_forall₂_iff]
  constructor
  · rintro ⟨r, h⟩
    exact ⟨r.variants, h.variants⟩
  · rintro ⟨vs, h⟩
    exact ⟨⟨Text.trim t.name, vs⟩, rfl, h⟩

theorem exists_compile_iff :
    (∃ g, compile lexicon text = .ok g) ↔
      (declared text).Nodup ∧
      (∀ t ∈ text.rules, ∀ variant ∈ t.body.toList.splitOn '|', Grammar.tokens variant ≠ [] ∧
        ∃ items, WellFormed (declared text) lexicon items ∧
          itemTokens items = Grammar.tokens variant) ∧
      Text.trim text.main ∈ declared text := by
  simp only [← exists_ruleDenotes_iff, ← exists_forall₂_iff]
  constructor
  · rintro ⟨g, h⟩
    obtain ⟨hn, hrules, hmain, hm⟩ := compile_eq_ok_iff.mp h
    exact ⟨hn, ⟨g.rules, hrules⟩, hmain ▸ hm⟩
  · rintro ⟨hn, ⟨rules, hrules⟩, hm⟩
    exact ⟨⟨rules, Text.trim text.main⟩, compile_eq_ok_iff.mpr ⟨hn, hrules, rfl, hm⟩⟩

/-- All variants and bodies of repetitions in a compiled grammar are well-formed. -/
theorem wellFormed_of_compile (h : compile lexicon text = .ok g) {items : List Item}
    (hi : items ∈ g.sequences) : WellFormed (declared text) lexicon items := by
  obtain ⟨-, hrules, -, -⟩ := compile_eq_ok_iff.mp h
  obtain ⟨v, hv, hi⟩ := List.mem_flatMap.mp hi
  obtain ⟨r, hr, hv⟩ := List.mem_flatMap.mp hv
  obtain ⟨t, -, ht⟩ := exists_of_mem_forall₂ hrules hr
  obtain ⟨variant, -, hd⟩ := exists_of_mem_forall₂ ht.variants hv
  rcases List.mem_cons.mp hi with rfl | hi
  · exact hd.wellFormed
  · exact hd.wellFormed.bodies items hi

/-- What a compiled grammar is: its rules are those of the text in their order, names find them,
references lead to them, and the text of a variant spells its items. -/
structure Faithful (lexicon : Lexicon) (text : GrammarText) (g : Grammar) : Prop where
  rules : List.Forall₂ (RuleDenotes (declared text) lexicon) text.rules g.rules
  main : g.main = Text.trim text.main
  find (name : String) (i : Nat) : g.find? name = some i ↔ ∃ r, g.rules[i]? = some r ∧ r.name = name
  references (items : List Item) (hi : items ∈ g.sequences) (name : String)
    (hm : Item.rule name ∈ items) : ∃ i < g.rules.length, g.find? name = some i
  texts (r : Rule) (hr : r ∈ g.rules) (v : Variant) (hv : v ∈ r.variants) :
    v.text = " ".intercalate (itemTokens v.items)

theorem faithful_of_compile (h : compile lexicon text = .ok g) : Faithful lexicon text g := by
  obtain ⟨hn, hrules, hmain, -⟩ := compile_eq_ok_iff.mp h
  have hnames : g.rules.map Rule.name = declared text := map_name_of_ruleDenotes hrules
  have hfind (name : String) (i : Nat) : g.find? name = some i ↔
      ∃ r, g.rules[i]? = some r ∧ r.name = name :=
    find?_eq_some_iff_getElem? (hnames ▸ hn)
  refine ⟨hrules, hmain, hfind, ?_, ?_⟩
  · intro items hi name hm
    have hd : name ∈ g.rules.map Rule.name := hnames ▸ (wellFormed_of_compile h hi).mem_names hm
    obtain ⟨i, hlt, he⟩ := List.getElem_of_mem hd
    have hlt : i < g.rules.length := by simpa using hlt
    exact ⟨i, hlt, (hfind name i).mpr ⟨_, List.getElem?_eq_getElem hlt, by simpa using he⟩⟩
  · intro r hr v hv
    obtain ⟨t, -, ht⟩ := exists_of_mem_forall₂ hrules hr
    obtain ⟨variant, -, hd⟩ := exists_of_mem_forall₂ ht.variants hv
    exact hd.text

/-- The compiler reads the well-formed items and nothing else, each off the tokens that stand for
it. -/
theorem compile_reads_wellFormed :
    (∀ (s : Scope) (tokens : List String) (items : List Item), s.items tokens = .ok items ↔
      WellFormed s.names s.lexicon items ∧ itemTokens items = tokens) ∧
    ∀ (lexicon : Lexicon) (text : GrammarText),
      ((∃ g, compile lexicon text = .ok g) ↔
        (declared text).Nodup ∧
        (∀ t ∈ text.rules, ∀ variant ∈ t.body.toList.splitOn '|', Grammar.tokens variant ≠ [] ∧
          ∃ items, WellFormed (declared text) lexicon items ∧
            itemTokens items = Grammar.tokens variant) ∧
        Text.trim text.main ∈ declared text) ∧
      ∀ g, compile lexicon text = .ok g → Faithful lexicon text g :=
  ⟨fun _ _ _ => Scope.items_eq_ok_iff,
    fun _ _ => ⟨exists_compile_iff, fun _ => faithful_of_compile⟩⟩

/-- Pairs of numbers and of pairs, where a rule refers to a later one. -/
def pairsText : GrammarText where
  main := " Pair"
  rules := [⟨"Pair", "({Part} [, {Part}])"⟩, ⟨"Part ", "{Number} | {Pair}"⟩]

def pairs : Grammar where
  rules := [
    ⟨"Pair", [⟨[.terminal "(", .rule "Part", .many [.terminal ",", .rule "Part"], .terminal ")"],
      "( {Part} [ , {Part} ] )"⟩]⟩,
    ⟨"Part", [⟨[.lexical .number], "{Number}"⟩, ⟨[.rule "Pair"], "{Pair}"⟩]⟩]
  main := "Pair"

theorem compile_reads_wellFormed_pairs :
    compile (.seeded [] ["(", ",", ")"]) pairsText = .ok pairs ∧
    Faithful (.seeded [] ["(", ",", ")"]) pairsText pairs := by
  have hc : compile (.seeded [] ["(", ",", ")"]) pairsText = .ok pairs := by cbv
  exact ⟨hc, (compile_reads_wellFormed.2 _ _).2 pairs hc⟩

end Descent.Grammar
