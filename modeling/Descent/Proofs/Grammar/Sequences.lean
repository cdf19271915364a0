import Descent.Grammar.Basic

/-! The sequences that a grammar is made of: its variants and the bodies of their repetitions. -/
namespace Descent.Grammar

mutual

/-- The bodies of the repetitions in an item, those inside other bodies too. -/
def Item.bodies : Item → List (List Item)
  | .many body => body :: bodies body
  | .terminal _ | .lexical _ | .rule _ => []

/-- The bodies of the repetitions in a sequence. -/
def bodies : List Item → List (List Item)
  | [] => []
  | i :: rest => i.bodies ++ bodies rest

end

@[simp] theorem bodies_nil : bodies [] = [] := rfl

@[simp] theorem bodies_terminal (text : String) (rest : List Item) :
    bodies (.terminal text :: rest) = bodies rest := rfl

@[simp] theorem bodies_lexical (c : LexicalClass) (rest : List Item) :
    bodies (.lexical c :: rest) = bodies rest := rfl

@[simp] theorem bodies_rule (name : String) (rest : List Item) :
    bodies (.rule name :: rest) = bodies rest := rfl

@[simp] theorem bodies_many (body rest : List Item) :
    bodies (.many body :: rest) = body :: bodies body ++ bodies rest := rfl

mutual

/-- What an item calls for: a text, a class or a rule, those inside repetitions too. -/
def Item.labels : Item → List String
  | .terminal text => [text]
  | .lexical c => [c.name]
  | .rule name => [name]
  | .many body => labels body

/-- What the items of a sequence call for. -/
def labels : List Item → List String
  | [] => []
  | i :: rest => i.labels ++ labels rest

end

theorem labels_cons (i : Item) (rest : List Item) : labels (i :: rest) = i.labels ++ labels rest :=
  rfl

mutual

/-- The texts that an item calls for, those inside repetitions too. -/
def Item.terminals : Item → List String
  | .terminal text => [text]
  | .lexical _ | .rule _ => []
  | .many body => terminals body

/-- The texts that the items of a sequence call for. -/
def terminals : List Item → List String
  | [] => []
  | i :: rest => i.terminals ++ terminals rest

end

theorem terminals_cons (i : Item) (rest : List Item) :
    terminals (i :: rest) = i.terminals ++ terminals rest := rfl

/-- The texts that a grammar calls for. -/
def vocabulary (g : Grammar) : List String :=
  (g.rules.flatMap Rule.variants).flatMap (terminals ·.items)

/-- All variants and all bodies of repetitions. -/
def sequences (g : Grammar) : List (List Item) :=
  (g.rules.flatMap Rule.variants).flatMap fun v => v.items :: bodies v.items

variable {g : Grammar} {name : String} {v : Variant}

theorem rule_of_mem_variants (h : v ∈ g.variants name) :
    ∃ r ∈ g.rules, r.name = name ∧ g.variants name = r.variants := by
  unfold variants at h ⊢
  cases hr : g.rule? name with
  | none => simp [hr] at h
  | some r =>
    have hn := List.find?_some hr
    exact ⟨r, List.mem_of_find?_eq_some hr, by simpa using hn, rfl⟩

theorem mem_vocabulary {text : String} (hv : v ∈ g.variants name)
    (ht : text ∈ terminals v.items) : text ∈ g.vocabulary := by
  obtain ⟨r, hr, _, he⟩ := rule_of_mem_variants hv
  rw [he] at hv
  exact List.mem_flatMap.mpr ⟨v, List.mem_flatMap.mpr ⟨r, hr, hv⟩, ht⟩

theorem mem_sequences {s : List Item} (hv : v ∈ g.variants name)
    (hs : s ∈ v.items :: bodies v.items) : s ∈ g.sequences := by
  obtain ⟨r, hr, _, he⟩ := rule_of_mem_variants hv
  rw [he] at hv
  exact List.mem_flatMap.mpr ⟨v, List.mem_flatMap.mpr ⟨r, hr, hv⟩, hs⟩

def beginsWithMany : List Item → Bool
  | .many _ :: _ => true
  | _ => false

/-- No variant and no body of a repetition begins with a repetition. -/
def NoLeadingMany (g : Grammar) : Prop := ∀ s ∈ g.sequences, beginsWithMany s = false

end Descent.Grammar
