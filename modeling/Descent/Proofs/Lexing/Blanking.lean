import Descent.Lexing.Comments
import Descent.Proofs.Text.Places
import Mathlib.Data.List.Forall2

/-!
Blanking keeps the layout. Character by character it leaves what is there or puts a space in the
place of something visible, so lines and columns stay, and so does whatever is still visible.
-/
namespace Descent.Lexing

open Text (Position isBlank)

variable {c d : Char} {text stripped pre mid post : List Char} {styles : List CommentStyle}

/-- A character and what stands in its place once comments are blanked. -/
def Blanked (c d : Char) : Prop := d = c ∨ d = ' ' ∧ isBlank c = false

theorem Blanked.eq (h : Blanked c d) (hd : isBlank d = false) : c = d := by
  rcases h with rfl | ⟨rfl, -⟩
  · rfl
  · exact absurd hd (by decide)

theorem Blanked.advance (h : Blanked c d) (p : Position) : p.advance c = p.advance d := by
  rcases h with rfl | ⟨rfl, hc⟩
  · rfl
  · have hne : c ≠ '\n' := by
      rintro rfl
      exact absurd hc (by decide)
    rw [Position.advance, Position.advance, if_neg hne, if_neg (by decide)]

theorem blanked_mapIdx {f : Nat → Char → Char} (hf : ∀ i c, Blanked c (f i c)) :
    List.Forall₂ Blanked text (text.mapIdx f) := by
  induction text generalizing f with
  | nil => exact .nil
  | cons c text ih =>
    rw [List.mapIdx_cons]
    exact .cons (hf 0 c) (ih fun i => hf (i + 1))

theorem blanked_blankOut (comments : List Extent) (text : List Char) :
    List.Forall₂ Blanked text (blankOut comments text) := by
  refine blanked_mapIdx fun i c => ?_
  split
  · rename_i h
    exact Or.inr ⟨rfl, by simpa using (Bool.and_eq_true_iff.mp h).2⟩
  · exact Or.inl rfl

theorem blanked_of_stripComments (h : stripComments styles text = .ok stripped) :
    List.Forall₂ Blanked text stripped := by
  unfold stripComments at h
  split at h
  · cases h
    exact blanked_blankOut _ text
  · cases h

theorem eq_of_blanked (h : List.Forall₂ Blanked text stripped)
    (hb : ∀ c ∈ stripped, isBlank c = false) : text = stripped := by
  induction h with
  | nil => rfl
  | cons hc _ ih =>
    rw [hc.eq (hb _ List.mem_cons_self), ih fun c hm => hb c (List.mem_cons_of_mem _ hm)]

/-- A visible front stood there before. -/
theorem prefix_of_blanked (h : List.Forall₂ Blanked text (mid ++ post))
    (hb : ∀ c ∈ mid, isBlank c = false) : mid <+: text := by
  rw [← eq_of_blanked (List.forall₂_take_append text mid post h) hb]
  exact List.take_prefix _ _

theorem through_eq_of_blanked (h : List.Forall₂ Blanked text stripped) (p : Position) :
    p.through text = p.through stripped := by
  induction h generalizing p with
  | nil => rfl
  | cons hc _ ih => rw [Position.through_cons, Position.through_cons, hc.advance, ih]

/-- What is visible after the comments are gone stands in the text that had them, at the same
place. -/
theorem exists_append_of_blanked (h : List.Forall₂ Blanked text (pre ++ (mid ++ post)))
    (hb : ∀ c ∈ mid, isBlank c = false) :
    ∃ pre' post', text = pre' ++ (mid ++ post') ∧ Position.after pre' = Position.after pre := by
  have hpre := List.forall₂_take_append text pre (mid ++ post) h
  have hrest := List.forall₂_drop_append text pre (mid ++ post) h
  have hmid := eq_of_blanked (List.forall₂_take_append _ mid post hrest) hb
  refine ⟨text.take pre.length, (text.drop pre.length).drop mid.length, ?_,
    through_eq_of_blanked hpre .start⟩
  nth_rewrite 1 [← List.take_append_drop pre.length text]
  nth_rewrite 1 [← List.take_append_drop mid.length (text.drop pre.length)]
  rw [hmid]

end Descent.Lexing
