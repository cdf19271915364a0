import Descent.Proofs.Grammar.Sequences
import Mathlib.Data.Finset.Card
import Mathlib.Data.Finset.Dedup
import Mathlib.Logic.Relation

/-!
Left recursion: a rule that comes back to itself before a lexeme is taken. Without it the declared
rules that a rule can come to in place become fewer with every call.
-/
namespace Descent.Grammar

/-- Sequences that can match without a lexeme: repetitions and rules with such a variant. -/
inductive Nullable (g : Grammar) : List Item → Prop
  | nil : Nullable g []
  | many {body rest} (hr : Nullable g rest) : Nullable g (.many body :: rest)
  | rule {name v rest} (hv : v ∈ g.variants name) (hn : Nullable g v.items)
      (hr : Nullable g rest) : Nullable g (.rule name :: rest)

/-- The rules that a sequence can refer to before it takes a lexeme. A repetition may be entered or
not; a nullable rule may be passed over. -/
inductive Leads (g : Grammar) : List Item → String → Prop
  | call {name rest} : Leads g (.rule name :: rest) name
  | body {body rest name} (hb : Leads g body name) : Leads g (.many body :: rest) name
  | afterMany {body rest name} (hr : Leads g rest name) : Leads g (.many body :: rest) name
  | afterRule {other v rest name} (hv : v ∈ g.variants other) (hn : Nullable g v.items)
      (hr : Leads g rest name) : Leads g (.rule other :: rest) name

def CallsInPlace (g : Grammar) (caller callee : String) : Prop :=
  ∃ v ∈ g.variants caller, Leads g v.items callee

def LeftRecursive (g : Grammar) : Prop :=
  ∃ name, Relation.TransGen (CallsInPlace g) name name

variable {g : Grammar} {a b name : String} {items rest : List Item}

@[simp] theorem not_leads_nil : ¬ Leads g [] name := nofun

@[simp] theorem not_leads_terminal {text : String} : ¬ Leads g (.terminal text :: rest) name :=
  nofun

@[simp] theorem not_leads_lexical {c : LexicalClass} : ¬ Leads g (.lexical c :: rest) name :=
  nofun

@[simp] theorem leads_many {body : List Item} :
    Leads g (.many body :: rest) name ↔ Leads g body name ∨ Leads g rest name := by
  constructor
  · rintro (_ | hb | hr | _)
    · exact Or.inl hb
    · exact Or.inr hr
  · rintro (hb | hr)
    · exact .body hb
    · exact .afterMany hr

@[simp] theorem leads_rule {other : String} : Leads g (.rule other :: rest) name ↔
    other = name ∨ (∃ v ∈ g.variants other, Nullable g v.items) ∧ Leads g rest name := by
  constructor
  · rintro (_ | _ | _ | ⟨hv, hn, hr⟩)
    · exact Or.inl rfl
    · exact Or.inr ⟨⟨_, hv, hn⟩, hr⟩
  · rintro (rfl | ⟨⟨v, hv, hn⟩, hr⟩)
    · exact .call
    · exact .afterRule hv hn hr

/-- A ranking of the rules that falls with every call excludes left recursion. -/
theorem not_leftRecursive_of_rank (rank : String → Nat)
    (h : ∀ a b, CallsInPlace g a b → rank b < rank a) : ¬ LeftRecursive g := by
  have hlt : ∀ a b, Relation.TransGen (CallsInPlace g) a b → rank b < rank a := by
    intro a b hab
    induction hab with
    | single hab => exact h _ _ hab
    | tail _ hbc ih => exact Nat.lt_trans (h _ _ hbc) ih
  rintro ⟨name, hn⟩
  exact Nat.lt_irrefl _ (hlt name name hn)

open Classical in
/-- The declared rules that a rule comes to in place, itself among them. -/
noncomputable def reach (g : Grammar) (name : String) : Finset String :=
  (g.rules.map Rule.name).toFinset.filter fun other =>
    Relation.ReflTransGen (CallsInPlace g) name other

theorem card_reach_le (g : Grammar) (name : String) : (g.reach name).card ≤ g.rules.length := by
  classical
  calc (g.reach name).card
      ≤ (g.rules.map Rule.name).toFinset.card := Finset.card_filter_le _ _
    _ ≤ (g.rules.map Rule.name).length := List.toFinset_card_le _
    _ = g.rules.length := List.length_map _

theorem self_mem_reach {v : Variant} (h : v ∈ g.variants name) : name ∈ g.reach name := by
  classical
  obtain ⟨r, hr, rfl, _⟩ := rule_of_mem_variants h
  simp only [reach, Finset.mem_filter, List.mem_toFinset]
  exact ⟨List.mem_map_of_mem hr, .refl⟩

theorem card_reach_lt (h : ¬ LeftRecursive g) (hc : CallsInPlace g a b) :
    (g.reach b).card < (g.reach a).card := by
  classical
  obtain ⟨v, hv, _⟩ := id hc
  apply Finset.card_lt_card
  refine Finset.ssubset_iff_of_subset ?_ |>.mpr ⟨a, self_mem_reach hv, ?_⟩
  · intro other ho
    simp only [reach, Finset.mem_filter] at ho ⊢
    exact ⟨ho.1, .head hc ho.2⟩
  · intro ha
    simp only [reach, Finset.mem_filter] at ha
    exact h ⟨a, .head' hc ha.2⟩

end Descent.Grammar
