import Descent.Parse.Tree

/-!
Shapes of trees. The verdicts in preorder, each with its depth, are all it takes to know a forest:
read from the last to the first, each takes the trees after it that lie deeper for its children.
-/
namespace Descent.Parse

/-- The verdict of a node and the shapes below it. -/
inductive Shape where
  | node (verdict : Verdict) (children : List Shape)

namespace Shape

variable {s : Shape} {ss ss' : List Shape} {pending : List (Nat × Shape)} {depth : Nat}

mutual

/-- How many nodes there are. -/
def size : Shape → Nat
  | .node _ children => sizeAll children + 1

def sizeAll : List Shape → Nat
  | [] => 0
  | s :: rest => size s + sizeAll rest

end

mutual

/-- The verdicts in preorder, each with its depth. -/
def levels (depth : Nat) : Shape → List (Nat × Verdict)
  | .node verdict children => (depth, verdict) :: levelsAll (depth + 1) children

def levelsAll (depth : Nat) : List Shape → List (Nat × Verdict)
  | [] => []
  | s :: rest => levels depth s ++ levelsAll depth rest

end

mutual

theorem length_levels (depth : Nat) : (s : Shape) → (s.levels depth).length = s.size
  | .node verdict children => by
    rw [levels, size, List.length_cons, length_levelsAll (depth + 1) children]

theorem length_levelsAll (depth : Nat) :
    (ss : List Shape) → (levelsAll depth ss).length = sizeAll ss
  | [] => rfl
  | s :: rest => by
    rw [levelsAll, sizeAll, List.length_append, length_levels depth s,
      length_levelsAll depth rest]

end

theorem levelsAll_eq_flatMap (depth : Nat) (ss : List Shape) :
    levelsAll depth ss = ss.flatMap (levels depth) := by
  induction ss with
  | nil => rfl
  | cons s rest ih => rw [levelsAll, ih, List.flatMap_cons]

/-- Puts a node before trees, those first ones that lie deeper below it. -/
def plant (level : Nat × Verdict) (pending : List (Nat × Shape)) : List (Nat × Shape) :=
  let deeper := pending.takeWhile (level.1 < ·.1)
  (level.1, .node level.2 (deeper.map Prod.snd)) :: pending.dropWhile (level.1 < ·.1)

/-- The trees whose nodes are given in preorder, with their depths. -/
def forest (levels : List (Nat × Verdict)) : List Shape := (levels.foldr plant []).map Prod.snd

/-- The trees one level down, up to the first that is not, are the children. -/
theorem plant_children (verdict : Verdict) (children : List Shape)
    (hp : ∀ p ∈ pending.head?, p.1 ≤ depth) :
    plant (depth, verdict) (children.map (depth + 1, ·) ++ pending) =
      (depth, .node verdict children) :: pending := by
  have hdeeper : ∀ p ∈ children.map (depth + 1, ·), decide (depth < p.1) = true := by
    intro p hm
    obtain ⟨s, -, rfl⟩ := List.mem_map.mp hm
    exact decide_eq_true (Nat.lt_succ_self depth)
  obtain ⟨htake, hdrop⟩ : pending.takeWhile (fun p => decide (depth < p.1)) = [] ∧
      pending.dropWhile (fun p => decide (depth < p.1)) = pending := by
    cases pending with
    | nil => exact ⟨rfl, rfl⟩
    | cons p rest =>
      have hstop : ¬ decide (depth < p.1) = true := by
        simpa using hp p rfl
      exact ⟨List.takeWhile_cons_of_neg hstop, List.dropWhile_cons_of_neg hstop⟩
  unfold plant
  dsimp only
  rw [List.takeWhile_append_of_pos hdeeper, List.dropWhile_append_of_pos hdeeper, htake, hdrop,
    List.append_nil, List.map_map]
  simp [Function.comp_def]

mutual

theorem foldr_levels (s : Shape) (depth : Nat) (pending : List (Nat × Shape))
    (hp : ∀ p ∈ pending.head?, p.1 ≤ depth) :
    (s.levels depth).foldr plant pending = (depth, s) :: pending := by
  cases s with
  | node verdict children =>
    have hchildren := foldr_levelsAll children (depth + 1) pending fun p h =>
      Nat.le_succ_of_le (hp p h)
    rw [levels, List.foldr_cons, hchildren]
    exact plant_children verdict children hp

/-- The trees of one level come back as they were, before those that lie no deeper. -/
theorem foldr_levelsAll (ss : List Shape) (depth : Nat) (pending : List (Nat × Shape))
    (hp : ∀ p ∈ pending.head?, p.1 ≤ depth) :
    (levelsAll depth ss).foldr plant pending = ss.map (depth, ·) ++ pending := by
  cases ss with
  | nil => rfl
  | cons s rest =>
    have hrest : ∀ p ∈ (rest.map (depth, ·) ++ pending).head?, p.1 ≤ depth := by
      cases rest with
      | nil => exact hp
      | cons t rest =>
        intro p hm
        obtain rfl := Option.mem_some.mp hm
        exact Nat.le_refl depth
    rw [levelsAll, List.foldr_append, foldr_levelsAll rest depth pending hp,
      foldr_levels s depth _ hrest]
    rfl

end

theorem forest_levelsAll (depth : Nat) (ss : List Shape) : forest (levelsAll depth ss) = ss := by
  rw [forest, foldr_levelsAll ss depth [] (fun _ h => nomatch h), List.append_nil, List.map_map]
  exact List.map_id ss

/-- No two forests have the same verdicts at the same depths in preorder. -/
theorem levelsAll_injective (h : levelsAll depth ss = levelsAll depth ss') : ss = ss' := by
  rw [← forest_levelsAll depth ss, h, forest_levelsAll]

end Shape

namespace Node

mutual

/-- What is left of a tree without its texts and places. -/
def shape : Node → Shape
  | ⟨_, verdict, _, children, _⟩ => .node verdict (shapes children)

def shapes : List Node → List Shape
  | [] => []
  | n :: rest => shape n :: shapes rest

end

mutual

theorem levels_shape (depth : Nat) : (n : Node) →
    n.shape.levels depth = (n.preorder depth).map fun p => (p.1, p.2.verdict)
  | ⟨_, verdict, _, children, _⟩ => by
    rw [shape, Shape.levels, preorder, List.map_cons, levelsAll_shapes (depth + 1) children]

theorem levelsAll_shapes (depth : Nat) : (ns : List Node) →
    Shape.levelsAll depth (shapes ns) =
      (preorderAll depth ns).map fun p => (p.1, p.2.verdict)
  | [] => rfl
  | n :: rest => by
    rw [shapes, Shape.levelsAll, preorderAll, List.map_append, levels_shape depth n,
      levelsAll_shapes depth rest]

end

end Node

end Descent.Parse
