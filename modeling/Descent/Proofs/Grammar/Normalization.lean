import Descent.Proofs.Grammar.Acceptance
import Descent.Proofs.Text.Places
import Descent.Proofs.Text.Words
import Mathlib

/-!
Grammars written out again. Cutting a variant into tokens loses nothing but its blanks, and tokens
set apart by spaces are cut into the same tokens. So a compiled grammar can be compiled from the
text that it is displayed as, to itself.
-/
namespace Descent

namespace Grammar

open Text (isBlank words)

variable {names : List String} {lexicon : Lexicon} {text text' : GrammarText} {g : Grammar}
  {piece piece' pad : List Char} {c : Char} {t : String} {ts : List String} {v : Variant}
  {vs : List Variant} {r : Rule} {rule rule' : RuleText}

/-- Visible characters that belong together. -/
structure IsToken (t : List Char) : Prop where
  ne_nil : t ≠ []
  visible : ∀ c ∈ t, isBlank c = false
  joined : t.IsChain fun c d => joined c d = true

/-- Tokens are made of all the visible characters of a text, in order. -/
theorem flatMap_toList_tokens (piece : List Char) :
    (tokens piece).flatMap String.toList = piece.filter (!isBlank ·) := by
  rw [← Text.flatten_words, tokens, List.flatMap_assoc]
  have hword (word : List Char) :
      ((word.splitBy joined).map String.ofList).flatMap String.toList = word := by
    rw [List.flatMap_map]
    simp
  simp only [hword, List.flatMap_id']

theorem isToken_of_mem_tokens (h : t ∈ tokens piece) : IsToken t.toList := by
  obtain ⟨word, hword, ht⟩ := List.mem_flatMap.mp h
  obtain ⟨run, hrun, rfl⟩ := List.mem_map.mp ht
  rw [String.toList_ofList]
  refine ⟨List.ne_nil_of_mem_splitBy hrun, fun c hc => ?_, List.isChain_of_mem_splitBy hrun⟩
  have hin : c ∈ word := by
    rw [← List.flatten_splitBy joined word]
    exact List.mem_flatten.mpr ⟨run, hrun, hc⟩
  exact Text.not_isBlank_of_mem_words hword hin

@[simp] theorem tokens_nil : tokens [] = [] := rfl

theorem tokens_append_blank (hc : isBlank c = true) (pre post : List Char) :
    tokens (pre ++ c :: post) = tokens pre ++ tokens post := by
  rw [tokens, tokens, tokens, Text.words_append_blank hc, List.flatMap_append]

theorem tokens_pad (hpad : ∀ c ∈ pad, isBlank c = true) (piece : List Char) :
    tokens (pad ++ piece) = tokens piece := by
  induction pad with
  | nil => rfl
  | cons c pad ih =>
    obtain ⟨hc, hpad⟩ := List.forall_mem_cons.mp hpad
    have hcut := tokens_append_blank hc [] (pad ++ piece)
    rw [tokens_nil, List.nil_append, List.nil_append, ih hpad] at hcut
    exact hcut

theorem tokens_of_isToken (h : IsToken piece) : tokens piece = [String.ofList piece] := by
  rw [tokens, Text.words_of_visible h.ne_nil h.visible, List.flatMap_singleton,
    List.splitBy_of_isChain h.ne_nil h.joined, List.map_singleton]

/-- Tokens set apart by spaces are cut where they were joined. -/
theorem tokens_intercalate (h : ∀ t ∈ ts, IsToken t.toList) :
    tokens (" ".intercalate ts).toList = ts := by
  induction ts with
  | nil => rfl
  | cons t ts ih =>
    obtain ⟨ht, hts⟩ := List.forall_mem_cons.mp h
    have htoken : tokens t.toList = [t] := by
      rw [tokens_of_isToken ht, String.ofList_toList]
    cases ts with
    | nil => simpa using htoken
    | cons u ts =>
      have hlist : (" ".intercalate (t :: u :: ts)).toList =
          t.toList ++ ' ' :: (" ".intercalate (u :: ts)).toList := by
        simp [String.intercalate_cons_cons]
      rw [hlist, tokens_append_blank (by decide), htoken, ih hts]
      rfl

theorem tokens_normalized (piece : List Char) :
    tokens (" ".intercalate (tokens piece)).toList = tokens piece :=
  tokens_intercalate fun _ => isToken_of_mem_tokens

/-- What a text stands for is decided by its tokens. -/
theorem Denotes.of_tokens (h : Denotes names lexicon piece v)
    (ht : Grammar.tokens piece' = Grammar.tokens piece) : Denotes names lexicon piece' v :=
  ⟨h.wellFormed, h.ne_nil, h.tokens.trans ht.symm, h.text⟩

theorem Denotes.tokens_text (h : Denotes names lexicon piece v) :
    Grammar.tokens v.text.toList = Grammar.tokens piece := by
  rw [h.text, h.tokens, tokens_normalized]

/-- Tokens take over no character that was not there, so the text of a variant has no bar in it. -/
theorem Denotes.not_mem_text (h : Denotes names lexicon piece v) (hb : '|' ∉ piece) :
    '|' ∉ v.text.toList := by
  intro hm
  have hvisible : '|' ∈ v.text.toList.filter (!isBlank ·) :=
    List.mem_filter.mpr ⟨hm, by decide⟩
  rw [← flatMap_toList_tokens, h.tokens_text, flatMap_toList_tokens] at hvisible
  exact hb (List.mem_filter.mp hvisible).1

/-- The text of a rule's variants. -/
def Rule.body (r : Rule) : String := " | ".intercalate (r.variants.map Variant.text)

/-- Every piece between bars has the tokens of its variant. What was put in front of the first one
is the space that the bar before it leaves, when the first variant of all is cut off. -/
theorem forall₂_denotes_splitOn (pad : List Char) (hne : vs ≠ [])
    (hv : ∀ v ∈ vs, ∃ piece, '|' ∉ piece ∧ Denotes names lexicon piece v)
    (hpad : ∀ c ∈ pad, isBlank c = true) :
    List.Forall₂ (Denotes names lexicon)
      ((pad ++ (" | ".intercalate (vs.map Variant.text)).toList).splitOn '|') vs := by
  have hbar {front : List Char} (hf : ∀ c ∈ front, isBlank c = true) : '|' ∉ front := by
    intro hm
    exact absurd (hf '|' hm) (by decide)
  induction vs generalizing pad with
  | nil => exact (hne rfl).elim
  | cons v vs ih =>
    obtain ⟨⟨piece, hpiece, hd⟩, hvs⟩ := List.forall_mem_cons.mp hv
    have htext := hd.not_mem_text hpiece
    cases vs with
    | nil =>
      have hlone : '|' ∉ pad ++ v.text.toList := by
        simpa using ⟨hbar hpad, htext⟩
      have hv : Denotes names lexicon (pad ++ v.text.toList) v :=
        hd.of_tokens ((tokens_pad hpad _).trans hd.tokens_text)
      simpa [List.splitOn_eq_singleton hlone] using hv
    | cons w vs =>
      have hlist : pad ++ (" | ".intercalate ((v :: w :: vs).map Variant.text)).toList =
          (pad ++ (v.text.toList ++ [' '])) ++
            '|' :: ([' '] ++ (" | ".intercalate ((w :: vs).map Variant.text)).toList) := by
        simp [String.intercalate_cons_cons]
      have hfirst : '|' ∉ pad ++ (v.text.toList ++ [' ']) := by
        simpa using ⟨hbar hpad, htext⟩
      have htokens : tokens (pad ++ (v.text.toList ++ [' '])) = tokens piece := by
        rw [tokens_pad hpad, tokens_append_blank (by decide), tokens_nil, List.append_nil,
          hd.tokens_text]
      rw [hlist, List.splitOn_append_cons_self_of_not_mem hfirst]
      refine .cons (hd.of_tokens htokens) (ih [' '] (List.cons_ne_nil _ _) hvs ?_)
      intro c hc
      rw [List.mem_singleton.mp hc]
      decide

/-- The text of a compiled rule's variants stands for the same rule. -/
theorem RuleDenotes.of_body (h : RuleDenotes names lexicon rule r)
    (hn : Text.trim rule'.name = r.name) (hb : rule'.body = r.body) :
    RuleDenotes names lexicon rule' r := by
  refine ⟨hn.symm, ?_⟩
  rw [hb]
  have hne : r.variants ≠ [] := by
    intro he
    have hlen := h.variants.length_eq
    rw [he] at hlen
    exact List.splitOn_ne_nil '|' _ (List.length_eq_zero_iff.mp hlen)
  refine forall₂_denotes_splitOn [] hne (fun v hv => ?_) (List.forall_mem_nil _)
  obtain ⟨piece, hpiece, hd⟩ := exists_of_mem_forall₂ h.variants hv
  exact ⟨piece, Text.not_mem_of_mem_splitOn hpiece, hd⟩

/-- A text that names the rules as a grammar does, and has its bodies. -/
structure Respells (g : Grammar) (text : GrammarText) : Prop where
  main : Text.trim text.main = g.main
  rules : List.Forall₂ (fun t r => Text.trim t.name = r.name ∧ t.body = r.body) text.rules g.rules

theorem Respells.declared_eq (h : Respells g text) : declared text = g.rules.map Rule.name := by
  obtain ⟨-, hrules⟩ := h
  unfold declared
  generalize text.rules = ts, g.rules = rs at hrules
  induction hrules with
  | nil => rfl
  | cons ht _ ih => rw [List.map_cons, List.map_cons, ht.1, ih]

/-- However the names are set off, a text with the bodies of a compiled grammar compiles to it. -/
theorem compile_of_respells (hc : compile lexicon text = .ok g) (h : Respells g text') :
    compile lexicon text' = .ok g := by
  obtain ⟨hn, hrules, -, hm⟩ := compile_eq_ok_iff.mp hc
  have hd : declared text' = declared text :=
    h.declared_eq.trans (map_name_of_ruleDenotes hrules)
  have hdenotes : ∀ r ∈ g.rules, ∃ t, RuleDenotes (declared text) lexicon t r := by
    intro r hr
    obtain ⟨t, -, ht⟩ := exists_of_mem_forall₂ hrules hr
    exact ⟨t, ht⟩
  rw [compile_eq_ok_iff, hd]
  refine ⟨hn, ?_, h.main.symm, hm⟩
  have hboth := ((List.forall₂_and_left _ _).mpr ⟨hdenotes, h.rules.flip⟩).flip
  refine hboth.imp ?_
  rintro t r ⟨⟨s, hs⟩, hname, hbody⟩
  exact hs.of_body hname hbody

/-- A text with the bodies, and the name of the main rule, that a grammar has. -/
def normalize (text : GrammarText) (g : Grammar) : GrammarText where
  main := g.main
  rules := List.zipWith (fun t r => ⟨t.name, r.body⟩) text.rules g.rules

/-- The text that a grammar is displayed as. -/
def source (g : Grammar) : GrammarText where
  main := g.main
  rules := g.rules.map fun r => ⟨r.name, r.body⟩

theorem trim_name_of_compile (hc : compile lexicon text = .ok g) :
    Text.trim g.main = g.main ∧ ∀ r ∈ g.rules, Text.trim r.name = r.name := by
  obtain ⟨-, hrules, hmain, -⟩ := compile_eq_ok_iff.mp hc
  constructor
  · rw [hmain, Text.trim_trim]
  · intro r hr
    obtain ⟨t, -, ht⟩ := exists_of_mem_forall₂ hrules hr
    rw [ht.name, Text.trim_trim]

theorem respells_normalize (hc : compile lexicon text = .ok g) :
    Respells g (normalize text g) := by
  refine ⟨(trim_name_of_compile hc).1, ?_⟩
  obtain ⟨-, hrules, -, -⟩ := compile_eq_ok_iff.mp hc
  change List.Forall₂ _ (List.zipWith _ text.rules g.rules) g.rules
  generalize text.rules = ts, g.rules = rs at hrules
  induction hrules with
  | nil => exact .nil
  | cons ht _ ih => exact .cons ⟨ht.name.symm, rfl⟩ ih

theorem respells_source (hc : compile lexicon text = .ok g) : Respells g g.source := by
  obtain ⟨hmain, hnames⟩ := trim_name_of_compile hc
  refine ⟨hmain, List.forall₂_map_left_iff.mpr (List.forall₂_same.mpr fun r hr => ?_)⟩
  exact ⟨hnames r hr, rfl⟩

/-- The display of a grammar has a line for each rule of that text. -/
theorem text_eq_source (g : Grammar) :
    g.text = String.join (g.source.rules.map fun t => t.name ++ " ::= " ++ t.body ++ "\n") := by
  rw [source, List.map_map]
  rfl

/-- Tokens lose none of the visible characters of a text, none of them is empty, and joined by
spaces they are cut anew into themselves. A grammar that has compiled therefore compiles to itself,
rule by rule and with the same main rule, when the body of each rule is replaced by the texts of its
variants between bars, under the names as they were written or as they are displayed. -/
theorem normalized_text_recompiles :
    (∀ text : List Char, (tokens text).flatMap String.toList = text.filter (!isBlank ·) ∧
      "" ∉ tokens text ∧ tokens (" ".intercalate (tokens text)).toList = tokens text) ∧
    ∀ (lexicon : Lexicon) (text : GrammarText) (g : Grammar), compile lexicon text = .ok g →
      compile lexicon (normalize text g) = .ok g ∧ compile lexicon g.source = .ok g := by
  constructor
  · intro text
    refine ⟨flatMap_toList_tokens text, fun h => ?_, tokens_normalized text⟩
    exact (isToken_of_mem_tokens h).ne_nil rfl
  · intro lexicon text g hc
    exact ⟨compile_of_respells hc (respells_normalize hc),
      compile_of_respells hc (respells_source hc)⟩

/-- Blanks around a name stay in the one text and are gone in the other. -/
theorem normalized_text_recompiles_pairs :
    let lexicon := Lexicon.seeded [] ["(", ",", ")"]
    let bodies := ("( \x7bPart\x7d [ , \x7bPart\x7d ] )", "\x7bNumber\x7d | \x7bPair\x7d")
    compile lexicon pairsText = .ok pairs ∧
      compile lexicon ⟨"Pair", [⟨"Pair", bodies.1⟩, ⟨"Part ", bodies.2⟩]⟩ = .ok pairs ∧
      compile lexicon ⟨"Pair", [⟨"Pair", bodies.1⟩, ⟨"Part", bodies.2⟩]⟩ = .ok pairs := by
  intro lexicon bodies
  have hc : compile lexicon pairsText = .ok pairs := by cbv
  obtain ⟨hnormalized, hsource⟩ := normalized_text_recompiles.2 lexicon pairsText pairs hc
  exact ⟨hc, hnormalized, hsource⟩

/-- Braces that do not pair up stay with their neighbors as they can. -/
example : tokens "\x7ba\x7bb\x7d \x7d\x7b \x7b[x]\x7d".toList =
    ["\x7ba", "\x7bb\x7d", "\x7d", "\x7b", "\x7b", "[", "x", "]", "\x7d"] := by
  decide +kernel

end Grammar

end Descent
