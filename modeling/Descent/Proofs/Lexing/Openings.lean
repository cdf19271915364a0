import Descent.Proofs.Except
import Descent.Proofs.Lexing.Blanking

/-!
Where comments begin. Every opening delimiter in a text lies in a comment, so none is left when the
comments are gone, and a text in which there is none has no comments. To blank comments twice is
therefore to blank them once.
-/
namespace Descent.Lexing

open Text (occurrence? isBlank)

variable {pattern text stripped pre post : List Char} {styles : List CommentStyle}
  {style : CommentStyle} {comments : List Extent} {i offset skip : Nat}

theorem occurrence?_le (pattern pre post : List Char) :
    ∃ i ≤ pre.length, occurrence? pattern (pre ++ (pattern ++ post)) = some i := by
  induction pre with
  | nil =>
    refine ⟨0, le_rfl, ?_⟩
    cases h : pattern ++ post with
    | nil => simp_all [occurrence?]
    | cons c rest =>
      have hp : pattern.isPrefixOf (c :: rest) = true := by
        rw [List.isPrefixOf_iff_prefix, ← h]
        exact List.prefix_append pattern post
      simp [occurrence?, hp]
  | cons c pre ih =>
    obtain ⟨i, hi, ho⟩ := ih
    by_cases hp : pattern.isPrefixOf (c :: (pre ++ (pattern ++ post))) = true
    · exact ⟨0, Nat.zero_le _, by rw [List.cons_append, occurrence?, if_pos hp]⟩
    · refine ⟨i + 1, Nat.succ_le_succ hi, ?_⟩
      rw [List.cons_append, occurrence?, if_neg hp, ho]
      rfl

theorem infix_of_occurrence? (h : occurrence? pattern text = some i) : pattern <:+: text := by
  induction text generalizing i with
  | nil =>
    unfold occurrence? at h
    split at h
    · simp_all
    · cases h
  | cons c rest ih =>
    unfold occurrence? at h
    split at h
    · rename_i hp
      exact (List.isPrefixOf_iff_prefix.mp hp).isInfix
    · obtain ⟨j, hj, -⟩ := Option.map_eq_some_iff.mp h
      exact (ih hj).trans (List.infix_cons (List.infix_refl rest))

/-- Where one style first opens a comment. -/
def openingOf? (style : CommentStyle) (text : List Char) : Option (Nat × CommentStyle) :=
  if style.opening.isEmpty then none
  else (occurrence? style.opening.toList text).map (·, style)

/-- The opening that is found is one of those there are, and none of them lies further to the
left. -/
theorem opening?_cons (style : CommentStyle) (styles : List CommentStyle) (text : List Char) :
    (∀ a, openingOf? style text = some a ∨ opening? styles text = some a →
      ∃ b, opening? (style :: styles) text = some b ∧ b.1 ≤ a.1) ∧
    ∀ b, opening? (style :: styles) text = some b →
      openingOf? style text = some b ∨ opening? styles text = some b := by
  rw [opening?, openingOf?]
  generalize (if style.opening.isEmpty then none else _) = here, opening? styles text = there
  cases here with
  | none => exact ⟨fun a h => ⟨a, h.resolve_left nofun, le_rfl⟩, fun b => Or.inr⟩
  | some a =>
    cases there with
    | none => exact ⟨fun b h => ⟨b, h.resolve_right nofun, le_rfl⟩, fun b => Or.inl⟩
    | some b =>
      dsimp only
      split <;> grind

/-- A delimiter of one of the styles stands at the front of the text. -/
def Opens (styles : List CommentStyle) (text : List Char) : Prop :=
  ∃ style ∈ styles, style.opening.isEmpty = false ∧ style.opening.toList <+: text

theorem openingOf?_le (hs : style.opening.isEmpty = false) (h : style.opening.toList <+: post)
    (pre : List Char) : ∃ a, openingOf? style (pre ++ post) = some a ∧ a.1 ≤ pre.length := by
  obtain ⟨rest, rfl⟩ := h
  obtain ⟨i, hi, ho⟩ := occurrence?_le style.opening.toList pre rest
  refine ⟨(i, style), ?_, hi⟩
  rw [openingOf?, if_neg (by simp [hs]), ho]
  rfl

/-- A delimiter is found where it stands, or another one further to the left. -/
theorem opening?_le (h : Opens styles post) (pre : List Char) :
    ∃ a, opening? styles (pre ++ post) = some a ∧ a.1 ≤ pre.length := by
  obtain ⟨style, hs, hne, hp⟩ := h
  induction styles with
  | nil => cases hs
  | cons other styles ih =>
    have hfound : ∃ a, (openingOf? other (pre ++ post) = some a ∨
        opening? styles (pre ++ post) = some a) ∧ a.1 ≤ pre.length := by
      rcases List.mem_cons.mp hs with rfl | hs
      · obtain ⟨a, ha, hle⟩ := openingOf?_le hne hp pre
        exact ⟨a, Or.inl ha, hle⟩
      · obtain ⟨a, ha, hle⟩ := ih hs
        exact ⟨a, Or.inr ha, hle⟩
    obtain ⟨a, ha, hle⟩ := hfound
    obtain ⟨b, hb, hba⟩ := (opening?_cons other styles (pre ++ post)).1 a ha
    exact ⟨b, hb, hba.trans hle⟩

/-- What is found is a delimiter in the text. -/
theorem exists_opens_of_opening? {a : Nat × CommentStyle} (h : opening? styles text = some a) :
    ∃ post, post <:+ text ∧ Opens styles post := by
  induction styles with
  | nil => cases h
  | cons style styles ih =>
    rcases (opening?_cons style styles text).2 a h with h | h
    · unfold openingOf? at h
      split at h
      · cases h
      · rename_i hne
        obtain ⟨i, hi, -⟩ := Option.map_eq_some_iff.mp h
        obtain ⟨pre, post, rfl⟩ := infix_of_occurrence? hi
        refine ⟨style.opening.toList ++ post, ?_, style, List.mem_cons_self, by simpa using hne,
          List.prefix_append _ _⟩
        rw [List.append_assoc]
        exact List.suffix_append _ _
    · obtain ⟨post, hp, other, hs, ho⟩ := ih h
      exact ⟨post, hp, other, List.mem_cons_of_mem style hs, ho⟩

/-- Every delimiter in a text lies in one of its comments. -/
theorem contains_of_extents (h : extents styles offset text = .ok comments)
    (ho : Opens styles post) (ht : text = pre ++ post) :
    ∃ e ∈ comments, e.contains (offset + pre.length) = true := by
  fun_induction extents styles offset text generalizing pre comments with
  | case1 =>
    obtain ⟨style, -, hne, hp⟩ := ho
    obtain ⟨-, rfl⟩ := List.append_eq_nil_iff.mp ht.symm
    have hempty := String.toList_eq_nil_iff.mp (List.prefix_nil.mp hp)
    rw [hempty] at hne
    exact absurd hne (by decide)
  | case2 offset c rest hnone =>
    obtain ⟨a, ha, -⟩ := opening?_le ho pre
    rw [← ht, hnone] at ha
    cases ha
  | case3 => cases h
  | case4 offset c rest skip style hsome tail htail =>
    rename_i stop ih
    obtain ⟨a, ha, hle⟩ := opening?_le ho pre
    rw [← ht, hsome] at ha
    cases ha
    obtain ⟨later, hlater, rfl⟩ := map_eq_ok_iff.mp h
    by_cases hin : pre.length < skip + tail + 1
    · refine ⟨_, List.mem_cons_self, ?_⟩
      simp only [Extent.contains, Bool.and_eq_true, decide_eq_true_eq]
      dsimp only at hle
      omega
    · have hpast : skip + tail + 1 ≤ pre.length := Nat.le_of_not_lt hin
      have hdrop : rest.drop (skip + tail) = pre.drop (skip + tail + 1) ++ post := by
        rw [← List.drop_append_of_le_length hpast, ← ht, List.drop_succ_cons]
      obtain ⟨e, he, hc⟩ := ih hlater hdrop
      refine ⟨e, List.mem_cons_of_mem _ he, ?_⟩
      rw [List.length_drop] at hc
      rwa [show offset + pre.length = offset + skip + tail + 1 + (pre.length - (skip + tail + 1)) by
        omega]

theorem isBlank_of_contains {e : Extent} (he : e ∈ comments) (hi : e.contains i = true)
    (text : List Char) : ∀ c ∈ (blankOut comments text)[i]?, isBlank c = true := by
  intro c hc
  rw [blankOut, List.getElem?_mapIdx, Option.mem_def, Option.map_eq_some_iff] at hc
  obtain ⟨d, -, rfl⟩ := hc
  have hany : comments.any (·.contains i) = true := List.any_eq_true.mpr ⟨e, he, hi⟩
  rw [hany, Bool.true_and]
  cases hd : isBlank d with
  | true => exact hd
  | false =>
    change isBlank ' ' = true
    decide

/-- There is no delimiter anywhere in the text. -/
def Uncommented (styles : List CommentStyle) (text : List Char) : Prop :=
  ∀ post, post <:+ text → ¬ Opens styles post

/-- When comments are gone no visible delimiter is left. -/
theorem uncommented_of_stripComments (h : stripComments styles text = .ok stripped)
    (hb : ∀ style ∈ styles, ∀ c ∈ style.opening.toList, isBlank c = false) :
    Uncommented styles stripped := by
  rintro post ⟨pre, rfl⟩ ⟨style, hs, hne, rest, rfl⟩
  have hblanked := blanked_of_stripComments h
  have hdelimiter := prefix_of_blanked (List.forall₂_drop_append text pre _ hblanked) (hb style hs)
  unfold stripComments at h
  split at h
  · rename_i comments hc
    have hpre : (text.take pre.length).length = pre.length := by
      have hlength := hblanked.length_eq
      rw [List.length_append] at hlength
      rw [List.length_take, hlength]
      omega
    obtain ⟨e, he, hi⟩ := contains_of_extents hc ⟨style, hs, hne, hdelimiter⟩
      (List.take_append_drop pre.length text).symm
    rw [Nat.zero_add, hpre] at hi
    have hgone := isBlank_of_contains he hi text
    cases hd : style.opening.toList with
    | nil =>
      rw [String.toList_eq_nil_iff.mp hd] at hne
      exact absurd hne (by decide)
    | cons d ds =>
      rw [Except.ok.inj h, hd] at hgone
      have hvisible := hb style hs d (hd ▸ List.mem_cons_self)
      rw [hgone d (by simp)] at hvisible
      cases hvisible
  · cases h

theorem stripComments_of_uncommented (h : Uncommented styles text) :
    stripComments styles text = .ok text := by
  have hnone : opening? styles text = none := by
    rw [Option.eq_none_iff_forall_ne_some]
    intro a ha
    obtain ⟨post, hp, ho⟩ := exists_opens_of_opening? ha
    exact h post hp ho
  have he : extents styles 0 text = .ok [] := by
    cases text with
    | nil => rw [extents]
    | cons c rest => rw [extents, hnone]
  have hkept : blankOut [] text = text := List.ext_getElem? fun i => by simp [blankOut]
  rw [stripComments, he]
  exact congrArg Except.ok hkept

/-- Comments are gone for good. Where no opening delimiter has a blank in it, none occurs in a text
whose comments have been blanked, be it across the edge of one of them, so nothing is left to be
blanked. -/
theorem stripComments_idempotent
    (hb : ∀ style ∈ styles, ∀ c ∈ style.opening.toList, isBlank c = false)
    (h : stripComments styles text = .ok stripped) :
    stripComments styles stripped = .ok stripped ∧
      ∀ style ∈ styles, style.opening ≠ "" → ¬ style.opening.toList <:+: stripped := by
  have hnone := uncommented_of_stripComments h hb
  refine ⟨stripComments_of_uncommented hnone, ?_⟩
  rintro style hs hne ⟨pre, post, rfl⟩
  apply hnone (style.opening.toList ++ post)
  · rw [List.append_assoc]
    exact List.suffix_append pre _
  · exact ⟨style, hs, by simpa using hne, List.prefix_append _ post⟩

/-- A slash is followed by a comment of one character, and that by a star. -/
theorem stripComments_idempotent_edges :
    let styles := [⟨"/*", "*/"⟩, ⟨"#", ""⟩, ⟨"//", "\n"⟩]
    (∀ style ∈ styles, ∀ c ∈ style.opening.toList, isBlank c = false) ∧
      stripComments styles "a/#* b/*/*/*/c//#\n/".toList = .ok "a/ * b   *   c   \n/".toList ∧
      stripComments styles "a/ * b   *   c   \n/".toList = .ok "a/ * b   *   c   \n/".toList ∧
      ¬ ['/', '*'] <:+: "a/ * b   *   c   \n/".toList := by
  intro styles
  have hb : ∀ style ∈ styles, ∀ c ∈ style.opening.toList, isBlank c = false := by
    have hall : styles.all (·.opening.toList.all (!isBlank ·)) = true := by decide +kernel
    simpa only [List.all_eq_true, Bool.not_eq_true'] using hall
  have hc : stripComments styles "a/#* b/*/*/*/c//#\n/".toList =
      .ok "a/ * b   *   c   \n/".toList := by
    decide +kernel
  obtain ⟨hsame, hnone⟩ := stripComments_idempotent hb hc
  exact ⟨hb, hc, hsame, hnone ⟨"/*", "*/"⟩ List.mem_cons_self (by decide)⟩

/-- With a blank in it a delimiter may well be made up by a comment that goes. -/
example :
    let styles := [⟨"#", ""⟩, ⟨"a b", "c"⟩]
    stripComments styles "a#bc".toList = .ok "a bc".toList ∧
      stripComments styles "a bc".toList = .ok "    ".toList := by
  decide +kernel

end Descent.Lexing
