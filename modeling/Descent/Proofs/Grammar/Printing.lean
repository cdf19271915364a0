import Descent.Grammar.Compile
import Descent.Proofs.Except
import Descent.Proofs.Grammar.Sequences
import Descent.Proofs.Lexicon.Growth

/-!
The compiler of grammars accepts exactly the tokens that stand for well-formed items, and gives back
the items that they stand for.
-/
namespace Descent.Grammar

/-- Items that mean what their tokens say, where rules of these names are declared: a terminal is a
word or a separator and looks neither like a bracket nor like a reference, a reference names a rule
and no class of lexemes, and a repetition repeats something. -/
inductive WellFormed (names : List String) (lexicon : Lexicon) : List Item → Prop
  | nil : WellFormed names lexicon []
  | terminal {t rest} (ht : t ∈ lexicon.words.atoms ∨ t ∈ lexicon.separators.atoms)
      (ho : t ≠ "[") (hc : t ≠ "]") (hr : ∀ name, name ≠ "" → t ≠ reference name)
      (h : WellFormed names lexicon rest) : WellFormed names lexicon (.terminal t :: rest)
  | lexical {c rest} (h : WellFormed names lexicon rest) :
      WellFormed names lexicon (.lexical c :: rest)
  | rule {name rest} (hn : name ∈ names) (he : name ≠ "") (hc : ∀ c : LexicalClass, name ≠ c.name)
      (h : WellFormed names lexicon rest) : WellFormed names lexicon (.rule name :: rest)
  | many {body rest} (he : body ≠ []) (hb : WellFormed names lexicon body)
      (h : WellFormed names lexicon rest) : WellFormed names lexicon (.many body :: rest)

variable {names : List String} {lexicon : Lexicon} {s : Scope} {token name : String}
  {tokens inner after : List String} {items : List Item} {i : Item}

theorem toList_reference (name : String) :
    (reference name).toList = '{' :: (name.toList ++ ['}']) := by
  simp [reference]

theorem referenced?_eq_some_iff :
    referenced? token = some name ↔ name ≠ "" ∧ token = reference name := by
  unfold referenced?
  constructor
  · intro h
    split at h
    · cases h
    · rename_i c rest ht
      split at h
      · rename_i hc
        obtain ⟨rfl, hl, hne⟩ := hc
        obtain rfl := Option.some.inj h
        refine ⟨by simpa [← String.toList_eq_nil_iff] using hne, String.toList_inj.mp ?_⟩
        rw [toList_reference, ht, String.toList_ofList, List.dropLast_append_getLast? _ hl]
      · cases h
  · rintro ⟨hne, rfl⟩
    have hne : name.toList ≠ [] := mt String.toList_eq_nil_iff.mp hne
    rw [toList_reference]
    simp [hne]

theorem referenced?_eq_none_iff :
    referenced? token = none ↔ ∀ name, name ≠ "" → token ≠ reference name := by
  rw [Option.eq_none_iff_forall_ne_some]
  simp only [ne_eq, referenced?_eq_some_iff, not_and]

/-- A bracket is one character, a reference at least two. -/
theorem reference_ne_bracket (name : String) : reference name ≠ "[" ∧ reference name ≠ "]" := by
  constructor <;>
  · intro h
    have := congrArg String.toList h
    simp [toList_reference] at this

theorem ofName?_eq_none_iff :
    LexicalClass.ofName? name = none ↔ ∀ c : LexicalClass, name ≠ c.name := by
  constructor
  · rintro h c rfl
    simp [LexicalClass.ofName?_name] at h
  · intro h
    cases hc : LexicalClass.ofName? name with
    | none => rfl
    | some c => exact (h c (LexicalClass.name_of_ofName? hc).symm).elim

theorem splitClosing_eq_some {depth : Nat} (h : splitClosing depth tokens = some (inner, after)) :
    tokens = inner ++ "]" :: after := by
  induction tokens generalizing depth inner after with
  | nil => simp [splitClosing] at h
  | cons token rest ih =>
    unfold splitClosing at h
    split at h
    · rename_i ht
      subst ht
      split at h
      · cases h
        rfl
      · obtain ⟨⟨i, a⟩, hi, he⟩ := Option.map_eq_some_iff.mp h
        cases he
        rw [ih hi, List.cons_append]
    · obtain ⟨⟨i, a⟩, hi, he⟩ := Option.map_eq_some_iff.mp h
      cases he
      rw [ih hi, List.cons_append]

/-- Tokens before a list that is to be cut. -/
def prepend (pre : List String) (p : List String × List String) : List String × List String :=
  (pre ++ p.1, p.2)

@[simp] theorem map_prepend_nil (o : Option (List String × List String)) :
    o.map (prepend []) = o := by
  cases o <;> rfl

@[simp] theorem prepend_comp (pre pre' : List String) :
    prepend pre ∘ prepend pre' = prepend (pre ++ pre') := by
  funext p
  simp [prepend]

@[simp] theorem splitClosing_open (depth : Nat) : splitClosing depth ("[" :: tokens) =
    (splitClosing (depth + 1) tokens).map (prepend ["["]) := by
  rw [splitClosing.eq_def]
  rfl

@[simp] theorem splitClosing_zero_close : splitClosing 0 ("]" :: tokens) = some ([], tokens) := by
  rw [splitClosing, if_pos rfl]

@[simp] theorem splitClosing_close (depth : Nat) : splitClosing (depth + 1) ("]" :: tokens) =
    (splitClosing depth tokens).map (prepend ["]"]) := by
  rw [splitClosing, if_pos rfl]
  rfl

theorem splitClosing_plain {depth : Nat} (ho : token ≠ "[") (hc : token ≠ "]") :
    splitClosing depth (token :: tokens) =
      (splitClosing depth tokens).map (prepend [token]) := by
  rw [splitClosing.eq_def]
  dsimp only
  rw [if_neg hc, if_neg ho]
  rfl

/-- No bracket in well-formed items is the one that closes what was opened before them. -/
theorem splitClosing_itemTokens (h : WellFormed names lexicon items) (depth : Nat) :
    splitClosing depth (itemTokens items ++ tokens) =
      (splitClosing depth tokens).map (prepend (itemTokens items)) := by
  induction h generalizing depth tokens with
  | nil => simp [itemTokens]
  | terminal _ ho hc _ _ ih => simp [itemTokens, Item.tokens, splitClosing_plain ho hc, ih]
  | @lexical c rest _ ih =>
    obtain ⟨ho, hc⟩ := reference_ne_bracket c.name
    simp [itemTokens, Item.tokens, splitClosing_plain ho hc, ih]
  | @rule name rest _ _ _ _ ih =>
    obtain ⟨ho, hc⟩ := reference_ne_bracket name
    simp [itemTokens, Item.tokens, splitClosing_plain ho hc, ih]
  | many _ _ _ ihb ihr => simp [itemTokens, Item.tokens, ihb, ihr]

theorem itemTokens_eq_nil_iff : itemTokens items = [] ↔ items = [] := by
  cases items with
  | nil => simp [itemTokens]
  | cons i rest => cases i <;> simp [itemTokens, Item.tokens]

theorem WellFormed.cons (hi : WellFormed names lexicon [i]) (h : WellFormed names lexicon items) :
    WellFormed names lexicon (i :: items) := by
  cases hi with
  | terminal ht ho hc hr => exact .terminal ht ho hc hr h
  | lexical => exact .lexical h
  | rule hn he hc => exact .rule hn he hc h
  | many he hb => exact .many he hb h

theorem WellFormed.bodies (h : WellFormed names lexicon items) :
    ∀ body ∈ bodies items, WellFormed names lexicon body := by
  induction h with
  | nil => simp
  | terminal _ _ _ _ _ ih | lexical _ ih | rule _ _ _ _ ih => simpa using ih
  | many _ hb _ ihb ihr =>
    intro body hm
    simp only [bodies_many, List.cons_append, List.mem_cons, List.mem_append] at hm
    rcases hm with rfl | hm | hm
    · exact hb
    · exact ihb body hm
    · exact ihr body hm

/-- A reference in well-formed items names a declared rule. -/
theorem WellFormed.mem_names (h : WellFormed names lexicon items) (hm : .rule name ∈ items) :
    name ∈ names := by
  induction h with
  | nil => cases hm
  | terminal _ _ _ _ _ ih | lexical _ ih | many _ _ _ _ ih =>
    exact ih (by simpa using hm)
  | rule hn _ _ _ ih =>
    rcases List.mem_cons.mp hm with hm | hm
    · cases hm
      exact hn
    · exact ih hm

namespace Scope

theorem item_lexical (c : LexicalClass) : s.item (reference c.name) = .ok (.lexical c) := by
  have hr : referenced? (reference c.name) = some c.name :=
    referenced?_eq_some_iff.mpr ⟨by cases c <;> decide, rfl⟩
  rw [item, hr]
  dsimp only
  rw [LexicalClass.ofName?_name]

theorem item_rule (hn : name ∈ s.names) (he : name ≠ "") (hc : ∀ c : LexicalClass, name ≠ c.name) :
    s.item (reference name) = .ok (.rule name) := by
  rw [item, referenced?_eq_some_iff.mpr ⟨he, rfl⟩]
  dsimp only
  rw [ofName?_eq_none_iff.mpr hc, if_pos hn]

theorem item_terminal (ht : token ∈ s.lexicon.words.atoms ∨ token ∈ s.lexicon.separators.atoms)
    (hr : ∀ name, name ≠ "" → token ≠ reference name) : s.item token = .ok (.terminal token) := by
  rw [item, referenced?_eq_none_iff.mpr hr]
  dsimp only
  rw [if_pos (Lexicon.isSome_terminal?.mpr ht)]

theorem items_many {is os : List Item} (hc : splitClosing 0 tokens = some (inner, after))
    (hne : inner ≠ []) (hi : s.items inner = .ok is) (ho : s.items after = .ok os) :
    s.items ("[" :: tokens) = .ok (.many is :: os) := by
  rw [items, if_pos rfl]
  split
  · simp_all
  · rename_i h
    obtain ⟨rfl, rfl⟩ := Prod.mk.inj (Option.some.inj (hc.symm.trans h))
    rw [if_neg (by simpa using hne), hi, ho]
    rfl

theorem items_single {is : List Item} (ho : token ≠ "[") (hc : token ≠ "]")
    (hi : s.item token = .ok i) (h : s.items tokens = .ok is) :
    s.items (token :: tokens) = .ok (i :: is) := by
  rw [items, if_neg ho, if_neg hc, hi, h]
  rfl

/-- Well-formed items are read off their tokens. -/
theorem items_itemTokens (h : WellFormed s.names s.lexicon items) :
    s.items (itemTokens items) = .ok items := by
  induction h with
  | nil => rw [itemTokens, Scope.items]
  | terminal ht ho hc hr _ ih => exact items_single ho hc (item_terminal ht hr) ih
  | @lexical c rest _ ih =>
    obtain ⟨ho, hc⟩ := reference_ne_bracket c.name
    exact items_single ho hc (item_lexical c) ih
  | @rule name rest hn he hc _ ih =>
    obtain ⟨ho, hc'⟩ := reference_ne_bracket name
    exact items_single ho hc' (item_rule hn he hc) ih
  | @many body rest he hb _ ihb ihr =>
    rw [itemTokens, Item.tokens, List.cons_append, List.append_assoc]
    refine items_many ?_ (mt itemTokens_eq_nil_iff.mp he) ihb ihr
    simp [splitClosing_itemTokens hb, prepend]

theorem wellFormed_of_item (ho : token ≠ "[") (hc : token ≠ "]") (h : s.item token = .ok i) :
    WellFormed s.names s.lexicon [i] ∧ i.tokens = [token] := by
  unfold item at h
  split at h
  · rename_i name hr
    obtain ⟨he, rfl⟩ := referenced?_eq_some_iff.mp hr
    split at h
    · rename_i c hn
      cases h
      obtain rfl := LexicalClass.name_of_ofName? hn
      exact ⟨.lexical .nil, rfl⟩
    · rename_i hn
      split at h
      · rename_i hm
        cases h
        exact ⟨.rule hm he (ofName?_eq_none_iff.mp hn) .nil, rfl⟩
      · cases h
  · rename_i hr
    split at h
    · rename_i ht
      cases h
      exact ⟨.terminal (Lexicon.isSome_terminal?.mp ht) ho hc (referenced?_eq_none_iff.mp hr) .nil, rfl⟩
    · cases h

/-- Whatever is read is well-formed, and its tokens are those that it was read off. -/
theorem wellFormed_of_items (h : s.items tokens = .ok items) :
    WellFormed s.names s.lexicon items ∧ itemTokens items = tokens := by
  fun_induction Scope.items s tokens generalizing items with
  | case1 =>
    cases h
    exact ⟨.nil, rfl⟩
  | case2 | case3 | case5 => cases h
  | case4 rest inner after hs he ihi iha =>
    obtain ⟨body, hb, h⟩ := bind_eq_ok_iff.mp h
    obtain ⟨others, ho, h⟩ := bind_eq_ok_iff.mp h
    cases h
    obtain ⟨hwb, rfl⟩ := ihi hb
    obtain ⟨hwo, rfl⟩ := iha ho
    have hne : body ≠ [] := mt itemTokens_eq_nil_iff.mpr (by simpa using he)
    refine ⟨.many hne hwb hwo, ?_⟩
    rw [splitClosing_eq_some hs]
    simp [itemTokens, Item.tokens]
  | case6 token rest hopen hclose ih =>
    obtain ⟨first, hf, h⟩ := bind_eq_ok_iff.mp h
    obtain ⟨others, ho, h⟩ := bind_eq_ok_iff.mp h
    cases h
    obtain ⟨hwf, htf⟩ := wellFormed_of_item hopen hclose hf
    obtain ⟨hwo, rfl⟩ := ih ho
    exact ⟨hwf.cons hwo, by rw [itemTokens, htf, List.singleton_append]⟩

/-- Reading tokens is the inverse of writing well-formed items. -/
theorem items_eq_ok_iff :
    s.items tokens = .ok items ↔ WellFormed s.names s.lexicon items ∧ itemTokens items = tokens :=
  ⟨wellFormed_of_items, fun ⟨h, ht⟩ => ht ▸ items_itemTokens h⟩

end Scope

end Descent.Grammar
