import Descent.Lexicon
import Mathlib.Data.List.Nodup

/-!
Tables only grow. An index and its atom belong together for good, so a lexeme that resolves to its
text in a lexicon does so in every later one.
-/
namespace Descent

namespace SymbolTable

variable {α : Type} [DecidableEq α] {t t' : SymbolTable α} {a : α} {i : Nat}

theorem find?_eq_some_iff : t.find? a = some i ↔ t.get? i = some a := by
  rw [find?, get?, List.idxOf?_eq_some_iff, List.getElem?_eq_some_iff]
  constructor
  · rintro ⟨hi, ha, _⟩
    exact ⟨hi, ha⟩
  · rintro ⟨hi, rfl⟩
    refine ⟨hi, rfl, fun j hj he => ?_⟩
    have := (List.Nodup.getElem_inj_iff t.nodup).mp he
    omega

theorem isSome_find? : (t.find? a).isSome ↔ a ∈ t.atoms := by
  rw [← not_iff_not, Option.not_isSome_iff_eq_none, find?_eq_none_iff]

omit [DecidableEq α] in
theorem get?_of_prefix (h : t.atoms <+: t'.atoms) (ha : t.get? i = some a) :
    t'.get? i = some a := by
  obtain ⟨hi, rfl⟩ := List.getElem?_eq_some_iff.mp ha
  exact List.prefix_iff_getElem?.mp h i hi

/-- A registered atom keeps the index it has or comes last. -/
theorem register_cases (t : SymbolTable α) (a : α) :
    (∃ i, t.find? a = some i ∧ t.register a = (t, i)) ∨
      ∃ h : t.find? a = none, t.register a = (t.push a h, t.size) := by
  unfold register
  split
  · rename_i i h
    exact Or.inl ⟨i, h, rfl⟩
  · rename_i h
    exact Or.inr ⟨h, rfl⟩

theorem prefix_register (t : SymbolTable α) (a : α) : t.atoms <+: (t.register a).1.atoms := by
  obtain ⟨i, _, h⟩ | ⟨_, h⟩ := t.register_cases a
  · exact h ▸ List.prefix_refl t.atoms
  · exact h ▸ List.prefix_append t.atoms [a]

theorem get?_register (t : SymbolTable α) (a : α) :
    (t.register a).1.get? (t.register a).2 = some a := by
  obtain ⟨i, hi, h⟩ | ⟨_, h⟩ := t.register_cases a <;> rw [h]
  · exact find?_eq_some_iff.mp hi
  · simp [get?, push, size]

omit [DecidableEq α] in
theorem eraseDups_of_nodup [BEq α] [LawfulBEq α] {as : List α} (h : as.Nodup) :
    as.eraseDups = as := by
  induction as with
  | nil => rfl
  | cons a as ih =>
    obtain ⟨ha, has⟩ := List.nodup_cons.mp h
    have hf : as.filter (fun b => !b == a) = as := by
      rw [List.filter_eq_self]
      intro b hb
      have hne : b ≠ a := fun he => ha (he ▸ hb)
      simpa using hne
    rw [List.eraseDups_cons, hf, ih has]

@[simp] theorem eraseDups_atoms (t : SymbolTable α) : t.atoms.eraseDups = t.atoms :=
  eraseDups_of_nodup t.nodup

/-- To register an atom before others is to have it in front of them. -/
theorem eraseDups_register (t : SymbolTable α) (a : α) (as : List α) :
    ((t.register a).1.atoms ++ as).eraseDups = (t.atoms ++ a :: as).eraseDups := by
  obtain ⟨i, hi, h⟩ | ⟨_, h⟩ := t.register_cases a <;> rw [h]
  · have ha : a ∈ t.atoms := List.mem_of_getElem? (find?_eq_some_iff.mp hi)
    rw [List.eraseDups_append, List.eraseDups_append]
    simp [List.removeAll, ha]
  · change (t.atoms ++ [a] ++ as).eraseDups = _
    rw [List.append_assoc, List.singleton_append]

theorem atoms_ofList (as : List α) : (ofList as).atoms = as.eraseDups := by
  have hfold (t : SymbolTable α) :
      (as.foldl (fun t a => (t.register a).1) t).atoms = (t.atoms ++ as).eraseDups := by
    induction as generalizing t with
    | nil => simp
    | cons a as ih => rw [List.foldl_cons, ih, eraseDups_register]
  rw [ofList, hfold]
  rfl

theorem eraseDups_eraseDups_append (as bs : List α) :
    (as.eraseDups ++ bs).eraseDups = (as ++ bs).eraseDups := by
  have hnodup : as.eraseDups.eraseDups = as.eraseDups := by
    rw [← atoms_ofList as, eraseDups_atoms]
  have hrest : bs.removeAll as.eraseDups = bs.removeAll as := by
    simp [List.removeAll, List.mem_eraseDups]
  rw [List.eraseDups_append, List.eraseDups_append, hnodup, hrest]

theorem mem_ofList {atoms : List α} : a ∈ (ofList atoms).atoms ↔ a ∈ atoms := by
  rw [atoms_ofList, List.mem_eraseDups]

end SymbolTable

namespace Lexicon

variable {l l' l'' : Lexicon} {x : Lexeme}

/-- Two lexicons with the same words and separators. -/
structure SameTerminals (l l' : Lexicon) : Prop where
  words : l'.words = l.words
  separators : l'.separators = l.separators

/-- A lexicon and a later one. -/
structure Grows (l l' : Lexicon) : Prop extends SameTerminals l l' where
  identifiers : l.identifiers.atoms <+: l'.identifiers.atoms
  integers : l.integers.atoms <+: l'.integers.atoms
  reals : l.reals.atoms <+: l'.reals.atoms

theorem SameTerminals.refl (l : Lexicon) : SameTerminals l l := ⟨rfl, rfl⟩

theorem SameTerminals.symm (h : SameTerminals l l') : SameTerminals l' l :=
  ⟨h.words.symm, h.separators.symm⟩

theorem SameTerminals.trans (h : SameTerminals l l') (h' : SameTerminals l' l'') :
    SameTerminals l l'' :=
  ⟨h'.words.trans h.words, h'.separators.trans h.separators⟩

theorem SameTerminals.terminal? (h : SameTerminals l l') : l'.terminal? = l.terminal? := by
  funext text
  rw [Lexicon.terminal?, Lexicon.terminal?, h.words, h.separators]

theorem SameTerminals.separates (h : SameTerminals l l') : l'.separates = l.separates := by
  funext c
  rw [Lexicon.separates, Lexicon.separates, h.separators]

theorem Grows.refl (l : Lexicon) : Grows l l :=
  ⟨.refl l, List.prefix_refl _, List.prefix_refl _, List.prefix_refl _⟩

theorem Grows.trans (h : Grows l l') (h' : Grows l' l'') : Grows l l'' :=
  ⟨h.toSameTerminals.trans h'.toSameTerminals, h.identifiers.trans h'.identifiers,
    h.integers.trans h'.integers, h.reals.trans h'.reals⟩

theorem grows_registerIdentifier (l : Lexicon) (name : String) :
    Grows l (l.registerIdentifier name).1 :=
  ⟨⟨rfl, rfl⟩, l.identifiers.prefix_register name, List.prefix_refl _, List.prefix_refl _⟩

theorem grows_registerInteger (l : Lexicon) (value : Nat) : Grows l (l.registerInteger value).1 :=
  ⟨⟨rfl, rfl⟩, List.prefix_refl _, l.integers.prefix_register value, List.prefix_refl _⟩

theorem grows_registerReal (l : Lexicon) (value : Binary64) : Grows l (l.registerReal value).1 :=
  ⟨⟨rfl, rfl⟩, List.prefix_refl _, List.prefix_refl _, l.reals.prefix_register value⟩

/-- The table of the lexeme holds its own text for it. Numbers have no such text. -/
def Resolves (l : Lexicon) (x : Lexeme) : Prop :=
  l.text? x = if x.category.isNumber then none else some x.text

theorem Resolves.grows (hx : l.Resolves x) (h : Grows l l') : l'.Resolves x := by
  unfold Resolves text? at hx ⊢
  cases hc : x.category with
  | word => rw [h.words]; simpa [hc] using hx
  | separator => rw [h.separators]; simpa [hc] using hx
  | identifier =>
    simp only [hc] at hx ⊢
    exact SymbolTable.get?_of_prefix h.identifiers hx
  | integer | real => rfl

theorem isSome_terminal? {text : String} : (l.terminal? text).isSome ↔
    text ∈ l.words.atoms ∨ text ∈ l.separators.atoms := by
  rw [← SymbolTable.isSome_find?, ← SymbolTable.isSome_find?]
  unfold terminal?
  cases l.words.find? text <;> simp

/-- A word or a separator by its index. -/
theorem get?_of_terminal? {text : String} {category : Category} {i : Nat}
    (h : l.terminal? text = some (category, i)) :
    category = .word ∧ l.words.get? i = some text ∨
      category = .separator ∧ l.separators.get? i = some text := by
  unfold terminal? at h
  split at h
  · rename_i j hj
    cases h
    exact Or.inl ⟨rfl, SymbolTable.find?_eq_some_iff.mp hj⟩
  · obtain ⟨j, hj, he⟩ := Option.map_eq_some_iff.mp h
    cases he
    exact Or.inr ⟨rfl, SymbolTable.find?_eq_some_iff.mp hj⟩

end Lexicon

end Descent
