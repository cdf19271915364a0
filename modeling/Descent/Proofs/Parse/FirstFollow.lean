import Descent.Proofs.Grammar.Sequences
import Descent.Proofs.Parse.Derivation
import Mathlib.Data.List.Basic

/-!
What a sequence can begin with and what can come after it. A grammar is predictive if the next
lexeme tells which variant of a rule to take and whether to go on with a repetition.
-/
namespace Descent.Parse

open Grammar (Item Variant)

/-- The tokens that a sequence can begin with. A repetition at its front may be passed over. -/
inductive First (g : Grammar) : List Item → Token → Prop
  | terminal {text rest t} (ht : t.spelling = some text) : First g (.terminal text :: rest) t
  | lexical {c rest t} (ht : c.admits t.category = true) : First g (.lexical c :: rest) t
  | rule {name v rest t} (hv : v ∈ g.variants name) (hf : First g v.items t) :
      First g (.rule name :: rest) t
  | body {body rest t} (hf : First g body t) : First g (.many body :: rest) t
  | past {body rest t} (hf : First g rest t) : First g (.many body :: rest) t

/-- What is still to be matched at a place in a variant, up to the end of the rule. Inside a
repetition the rest of its body comes first, then the same repetition again and what follows it. -/
inductive Remaining (g : Grammar) (name : String) : List Item → Prop
  | variant {v} (hv : v ∈ g.variants name) : Remaining g name v.items
  | next {i rest} (hr : Remaining g name (i :: rest)) : Remaining g name rest
  | body {body rest} (hr : Remaining g name (.many body :: rest)) :
      Remaining g name (body ++ .many body :: rest)

/-- There is nothing left but repetitions. -/
def OnlyMany (items : List Item) : Prop := ∀ i ∈ items, ∃ body, i = .many body

/-- The tokens that can follow a rule: at each reference to it, what can come next there, or what
can follow the referring rule if that may end there. -/
inductive Follow (g : Grammar) : String → Token → Prop
  | next {caller name rest t} (hr : Remaining g caller (.rule name :: rest))
      (hf : First g rest t) : Follow g name t
  | outer {caller name rest t} (hr : Remaining g caller (.rule name :: rest))
      (hm : OnlyMany rest) (hf : Follow g caller t) : Follow g name t

/-- The tokens that can come next in the rule `name` when `rest` is still to be matched there. -/
def Ahead (g : Grammar) (name : String) (rest : List Item) (t : Token) : Prop :=
  First g rest t ∨ OnlyMany rest ∧ Follow g name t

/-- No token of the alphabet can begin two variants of a rule, or both begin the body of a
repetition and follow the repetition. -/
structure Predictive (g : Grammar) (alphabet : Token → Prop) : Prop where
  variants : ∀ r ∈ g.rules, r.variants.Pairwise fun v w =>
    ∀ t, alphabet t → First g v.items t → ¬ First g w.items t
  repetitions : ∀ name body rest, Remaining g name (.many body :: rest) →
    ∀ t, alphabet t → First g body t → ¬ Ahead g name rest t

/-- Neither empty nor begun by a repetition. -/
def Solid (items : List Item) : Prop := items ≠ [] ∧ Grammar.beginsWithMany items = false

variable {g : Grammar} {items rest k : List Item} {u w post : List Token} {t : Token}
  {name : String}

@[simp] theorem first_terminal {text : String} :
    First g (.terminal text :: rest) t ↔ t.spelling = some text :=
  ⟨fun | .terminal ht => ht, .terminal⟩

@[simp] theorem first_lexical {c : Grammar.LexicalClass} :
    First g (.lexical c :: rest) t ↔ c.admits t.category = true :=
  ⟨fun | .lexical ht => ht, .lexical⟩

@[simp] theorem first_rule :
    First g (.rule name :: rest) t ↔ ∃ v ∈ g.variants name, First g v.items t :=
  ⟨fun | .rule hv hf => ⟨_, hv, hf⟩, fun ⟨_, hv, hf⟩ => .rule hv hf⟩

/-- What can come next at a reference to a rule can follow the rule. -/
theorem Ahead.of_reference {caller : String} (hr : Remaining g caller (.rule name :: rest))
    (ha : Ahead g caller rest t) : Ahead g name [] t := by
  refine Or.inr ⟨by simp [OnlyMany], ?_⟩
  rcases ha with hf | ⟨hm, hf⟩
  · exact .next hr hf
  · exact .outer hr hm hf

theorem First.append (h : First g items t) : First g (items ++ k) t := by
  induction items with
  | nil => cases h
  | cons i rest ih =>
    cases h with
    | terminal ht => exact .terminal ht
    | lexical ht => exact .lexical ht
    | rule hv hf => exact .rule hv hf
    | body hf => exact .body hf
    | past hf => exact .past (ih hf)

theorem First.past_many (hm : OnlyMany items) (h : First g k t) : First g (items ++ k) t := by
  induction items with
  | nil => exact h
  | cons i rest ih =>
    obtain ⟨body, rfl⟩ := hm i List.mem_cons_self
    exact .past (ih fun j hj => hm j (List.mem_cons_of_mem _ hj))

theorem OnlyMany.append (hm : OnlyMany items) (hk : OnlyMany k) : OnlyMany (items ++ k) := by
  intro i hi
  rcases List.mem_append.mp hi with hi | hi
  · exact hm i hi
  · exact hk i hi

section Solid

variable (hg : ∀ s ∈ g.sequences, Solid s)

include hg

theorem solid_of_variant {v : Variant} (hv : v ∈ g.variants name) : Solid v.items :=
  hg _ (Grammar.mem_sequences hv List.mem_cons_self)

theorem solid_of_bodies {v : Variant} (hv : v ∈ g.variants name) :
    ∀ s ∈ Grammar.bodies v.items, Solid s :=
  fun s hs => hg s (Grammar.mem_sequences hv (List.mem_cons_of_mem _ hs))

theorem ne_nil_of_derives (h : Derives g items w) (hs : Solid items) : w ≠ [] := by
  induction h with
  | nil => exact (hs.1 rfl).elim
  | terminal | lexical => simp
  | rule hv _ _ ihd _ =>
    have hu := ihd (solid_of_variant hg hv)
    simp [hu]
  | done | again => cases hs.2

theorem first_of_derives (h : Derives g items w) (hb : ∀ s ∈ Grammar.bodies items, Solid s) :
    ∀ t ∈ w.head?, First g items t := by
  induction h with
  | nil => simp
  | terminal ht | lexical ht =>
    intro t h
    cases h
    constructor
    exact ht
  | @rule name v rest u w hv hd hr ihd ihr =>
    have hu := ne_nil_of_derives hg hd (solid_of_variant hg hv)
    intro t h
    rw [List.head?_append_of_ne_nil _ hu] at h
    exact .rule hv (ihd (solid_of_bodies hg hv) t h)
  | done _ ih =>
    intro t h
    exact .past (ih (fun s hs => hb s (by simp [hs])) t h)
  | @again body rest u w hd hr ihd ihr =>
    have hu := ne_nil_of_derives hg hd (hb body (by simp))
    intro t h
    rw [List.head?_append_of_ne_nil _ hu] at h
    exact .body (ihd (fun s hs => hb s (by simp [hs])) t h)

theorem onlyMany_of_derives (h : Derives g items w) (hb : ∀ s ∈ Grammar.bodies items, Solid s)
    (hw : w = []) : OnlyMany items := by
  induction h with
  | nil => simp [OnlyMany]
  | terminal | lexical => cases hw
  | rule hv hd _ _ _ =>
    have hu := ne_nil_of_derives hg hd (solid_of_variant hg hv)
    exact (hu (List.append_eq_nil_iff.mp hw).1).elim
  | @done body rest w _ ih =>
    intro i hi
    rcases List.mem_cons.mp hi with rfl | hi
    · exact ⟨body, rfl⟩
    · exact ih (fun s hs => hb s (by simp [hs])) hw i hi
  | again hd _ _ _ =>
    have hu := ne_nil_of_derives hg hd (hb _ (by simp))
    exact (hu (List.append_eq_nil_iff.mp hw).1).elim

/-- What comes after derived tokens comes after the items that derive them. -/
theorem ahead_of_derives (h : Derives g rest w) (hb : ∀ s ∈ Grammar.bodies rest, Solid s)
    (hp : ∀ t ∈ post.head?, Ahead g name k t) :
    ∀ t ∈ (w ++ post).head?, Ahead g name (rest ++ k) t := by
  intro t ht
  by_cases hw : w = []
  · have hm := onlyMany_of_derives hg h hb hw
    rw [hw, List.nil_append] at ht
    rcases hp t ht with hf | ⟨hk, hf⟩
    · exact Or.inl (hf.past_many hm)
    · exact Or.inr ⟨hm.append hk, hf⟩
  · rw [List.head?_append_of_ne_nil _ hw] at ht
    exact Or.inl (first_of_derives hg h hb t ht).append

end Solid

end Descent.Parse
