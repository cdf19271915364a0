import Descent.Proofs.Parse.Steps

/-!
The context-free reading of a grammar, and the trees that show how items derive a stretch of the
input. Neither mentions the matcher: there is no order of variants and no commitment.
-/
namespace Descent.Parse

open Grammar (Item Variant)

/-- The token lists that a sequence of items derives. A repetition derives its body any number of
times, a rule what one of its variants derives. -/
inductive Derives (g : Grammar) : List Item → List Token → Prop
  | nil : Derives g [] []
  | terminal {text token rest w} (ht : token.spelling = some text) (hr : Derives g rest w) :
      Derives g (.terminal text :: rest) (token :: w)
  | lexical {c token rest w} (ht : c.admits token.category = true) (hr : Derives g rest w) :
      Derives g (.lexical c :: rest) (token :: w)
  | rule {name v rest u w} (hv : v ∈ g.variants name) (hd : Derives g v.items u)
      (hr : Derives g rest w) : Derives g (.rule name :: rest) (u ++ w)
  | done {body rest w} (hr : Derives g rest w) : Derives g (.many body :: rest) w
  | again {body rest u w} (hd : Derives g body u) (hr : Derives g (.many body :: rest) w) :
      Derives g (.many body :: rest) (u ++ w)

/-- Nodes that spell out a sequence of items over the tokens from one index up to another: a node
for each lexeme, a node with its one variant for each rule, and each repetition unrolled. -/
inductive Forest (g : Grammar) (input : Array Token) :
    List Item → Nat → Nat → List Node → Prop
  | nil {b} : Forest g input [] b b []
  | terminal {text token rest b e ns} (hi : input[b]? = some token)
      (ht : token.spelling = some text) (hr : Forest g input rest (b + 1) e ns) :
      Forest g input (.terminal text :: rest) b e
        ({ description := token.shown, span := some (.single b) } :: ns)
  | lexical {c token rest b e ns} (hi : input[b]? = some token)
      (ht : c.admits token.category = true) (hr : Forest g input rest (b + 1) e ns) :
      Forest g input (.lexical c :: rest) b e
        ({ description := token.shown, span := some (.single b) } :: ns)
  | rule {name v rest b d e us ns} (hv : v ∈ g.variants name) (hd : Forest g input v.items b d us)
      (hr : Forest g input rest d e ns) :
      Forest g input (.rule name :: rest) b e
        ({ description := name, verdict := .success, span := Span.consumed b d,
           children := [{ description := name ++ " ::= " ++ v.text,
                          verdict := if v.isBare then .pending else .success,
                          span := Span.consumed b d, children := us }] } :: ns)
  | done {body rest b e ns} (hr : Forest g input rest b e ns) :
      Forest g input (.many body :: rest) b e ns
  | again {body rest b d e us ns} (hd : Forest g input body b d us)
      (hr : Forest g input (.many body :: rest) d e ns) :
      Forest g input (.many body :: rest) b e (us ++ ns)

variable {g : Grammar} {input : Array Token} {xs ys items : List Item} {b d e : Nat}
  {us ns : List Node}

theorem take_drop_append {α : Type} (l : List α) (hb : b ≤ d) (hd : d ≤ e) :
    (l.drop b).take (e - b) = (l.drop b).take (d - b) ++ (l.drop d).take (e - d) := by
  rw [show e - b = (d - b) + (e - d) by omega, List.take_add, List.drop_drop,
    show b + (d - b) = d by omega]

theorem take_drop_succ {α : Type} {l : List α} {x : α} (hx : l[b]? = some x) (he : b + 1 ≤ e) :
    (l.drop b).take (e - b) = x :: (l.drop (b + 1)).take (e - (b + 1)) := by
  obtain ⟨hb, rfl⟩ := List.getElem?_eq_some_iff.mp hx
  rw [List.drop_eq_getElem_cons hb, show e - b = (e - (b + 1)) + 1 by omega, List.take_succ_cons]

namespace Forest

theorem le (h : Forest g input items b e ns) : b ≤ e := by
  induction h with
  | nil => exact Nat.le_refl _
  | terminal _ _ _ ih | lexical _ _ _ ih => omega
  | rule _ _ _ ihd ihr | again _ _ ihd ihr => omega
  | done _ ih => exact ih

theorem append (hx : Forest g input xs b d us) (hy : Forest g input ys d e ns) :
    Forest g input (xs ++ ys) b e (us ++ ns) := by
  induction hx with
  | nil => exact hy
  | terminal hi ht _ ih => exact .terminal hi ht (ih hy)
  | lexical hi ht _ ih => exact .lexical hi ht (ih hy)
  | rule hv hd _ _ ih => exact .rule hv hd (ih hy)
  | done _ ih => exact .done (ih hy)
  | again hd _ _ ih =>
    rw [List.append_assoc]
    exact .again hd (ih hy)

theorem derives (h : Forest g input items b e ns) :
    Derives g items ((input.toList.drop b).take (e - b)) := by
  induction h with
  | nil => simpa using Derives.nil
  | terminal hi ht hr ih =>
    rw [take_drop_succ (by simpa using hi) hr.le]
    exact .terminal ht ih
  | lexical hi ht hr ih =>
    rw [take_drop_succ (by simpa using hi) hr.le]
    exact .lexical ht ih
  | rule hv hd hr ihd ihr =>
    rw [take_drop_append _ hd.le hr.le]
    exact .rule hv ihd ihr
  | done _ ih => exact .done ih
  | again hd hr ihd ihr =>
    rw [take_drop_append _ hd.le hr.le]
    exact .again ihd ihr

end Forest

namespace Node

/-- A node for one lexeme. Whatever else is pending has a child. -/
def isLeaf (n : Node) : Bool := n.verdict = .pending && n.children.isEmpty

/-- The nodes for lexemes at and below a node, from left to right. -/
def leaves (n : Node) : List Node := ((n.preorder 0).map Prod.snd).filter isLeaf

mutual

theorem preorder_snd (depth : Nat) :
    ∀ n : Node, (n.preorder depth).map Prod.snd = (n.preorder 0).map Prod.snd
  | ⟨_, _, _, children, _⟩ => by
    rw [preorder, preorder, List.map_cons, List.map_cons, preorderAll_snd, preorderAll_snd 1]

theorem preorderAll_snd (depth : Nat) : ∀ ns : List Node,
    (preorderAll depth ns).map Prod.snd = ns.flatMap fun n => (n.preorder 0).map Prod.snd
  | [] => by simp [preorderAll]
  | n :: rest => by
    rw [preorderAll, List.map_append, preorder_snd depth n, preorderAll_snd depth rest,
      List.flatMap_cons]

end

theorem leaves_eq (n : Node) :
    n.leaves = (if n.isLeaf then [n] else []) ++ n.children.flatMap leaves := by
  obtain ⟨description, verdict, span, children, error⟩ := n
  rw [leaves, preorder, List.map_cons, preorderAll_snd, List.filter_cons, List.filter_flatMap]
  split <;> rfl

end Node

theorem Forest.nonempty_of_isBare {v : Variant} (hv : v.isBare = true)
    (h : Forest g input v.items b e ns) : ns ≠ [] := by
  obtain ⟨items, text⟩ := v
  unfold Variant.isBare at hv
  split at hv
  · rename_i hi
    dsimp only at hi h
    subst hi
    cases h
    simp
  · cases hv

/-- The leaves of a forest are its lexemes, each once and in order. -/
theorem Forest.leaves (h : Forest g input items b e ns) :
    ns.flatMap Node.leaves = ((input.toList.zipIdx.drop b).take (e - b)).map
      fun (token, i) => { description := token.shown, span := some (.single i) } := by
  induction h with
  | nil => simp
  | @terminal _ token _ b _ _ hi _ hr ih | @lexical _ token _ b _ _ hi _ hr ih =>
    have hz : input.toList.zipIdx[b]? = some (token, b) := by simp [hi]
    rw [take_drop_succ hz hr.le, List.flatMap_cons, ih, Node.leaves_eq]
    rfl
  | @rule name v rest b d e us ns hv hd hr ihd ihr =>
    have hleaf : Node.isLeaf ⟨name ++ " ::= " ++ v.text, if v.isBare then .pending else .success,
        Span.consumed b d, us, none⟩ = false := by
      by_cases hb : v.isBare
      · simp [Node.isLeaf, hd.nonempty_of_isBare hb]
      · simp [Node.isLeaf, hb]
    rw [take_drop_append _ hd.le hr.le, List.map_append, ← ihd, ← ihr, List.flatMap_cons,
      Node.leaves_eq, List.flatMap_singleton, Node.leaves_eq, hleaf]
    rfl
  | done _ ih => exact ih
  | again hd hr ihd ihr =>
    rw [take_drop_append _ hd.le hr.le, List.map_append, ← ihd, ← ihr, List.flatMap_append]

end Descent.Parse
