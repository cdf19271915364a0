import Descent.Proofs.Lexing.Layout
import Descent.Proofs.Lexing.Openings
import Descent.Proofs.Text.Lines

/-!
Tokens that stand apart. Where there are blanks between all of them, each is read as it was in the
text that it comes from, and no comment begins.
-/
namespace Descent

/-- The lexeme without its place. -/
def Lexeme.unplaced (x : Lexeme) : Lexeme := { x with line := 0, firstColumn := 0, lastColumn := 0 }

namespace Lexing

open Text (Position isBlank isLetter isWordChar unifyLines)

variable {l l' : Lexicon} {p q : Position} {c : Char} {t u text rest rest' gap back : List Char}
  {ts gaps : List (List Char)} {x : Lexeme} {styles : List CommentStyle}

/-- Tokens in a text with nothing but blanks around them, and some blank after each unless the text
ends there. -/
inductive Spaced : List (List Char) → List Char → Prop
  | nil : Spaced [] []
  | blank {c : Char} {rest : List Char} {ts : List (List Char)} (hb : isBlank c = true)
      (h : Spaced ts rest) : Spaced ts (c :: rest)
  | token {t rest : List Char} {ts : List (List Char)} (hv : ∀ c ∈ t, isBlank c = false)
      (hr : ∀ c ∈ rest.head?, isBlank c = true) (h : Spaced ts rest) : Spaced (t :: ts) (t ++ rest)

/-- The tokens in order, with blanks before, between and after them. Only the outer ones may be
missing. -/
def IsLayout (tokens : List (List Char)) (text : List Char) : Prop :=
  ∃ gaps back, gaps.length = tokens.length ∧
    text = (List.zipWith (· ++ ·) gaps tokens).flatten ++ back ∧
    (∀ gap ∈ back :: gaps, ∀ c ∈ gap, isBlank c = true) ∧ ∀ gap ∈ gaps.tail, gap ≠ []

theorem Spaced.prepend (hb : ∀ c ∈ gap, isBlank c = true) (h : Spaced ts rest) :
    Spaced ts (gap ++ rest) := by
  induction gap with
  | nil => exact h
  | cons c gap ih =>
    obtain ⟨hc, hgap⟩ := List.forall_mem_cons.mp hb
    exact .blank hc (ih hgap)

/-- Where no gap is missing the text begins with a blank, if with anything. -/
theorem head?_isBlank (hlength : gaps.length = ts.length)
    (hb : ∀ gap ∈ back :: gaps, ∀ c ∈ gap, isBlank c = true) (hne : ∀ gap ∈ gaps, gap ≠ []) :
    ∀ c ∈ ((List.zipWith (· ++ ·) gaps ts).flatten ++ back).head?, isBlank c = true := by
  obtain ⟨hback, hb⟩ := List.forall_mem_cons.mp hb
  intro c hc
  cases gaps with
  | nil => exact hback c (List.mem_of_head? hc)
  | cons gap gaps =>
    obtain ⟨t, ts, rfl⟩ := List.exists_cons_of_length_eq_add_one hlength.symm
    obtain ⟨d, gap, rfl⟩ := List.exists_cons_of_ne_nil (hne gap List.mem_cons_self)
    cases hc
    exact hb _ List.mem_cons_self c List.mem_cons_self

theorem spaced_of_isLayout (hv : ∀ t ∈ ts, ∀ c ∈ t, isBlank c = false) (h : IsLayout ts text) :
    Spaced ts text := by
  obtain ⟨gaps, back, hlength, rfl, hb, hne⟩ := h
  induction ts generalizing gaps with
  | nil =>
    have hback := (List.forall_mem_cons.mp hb).1
    rw [List.zipWith_nil_right, List.flatten_nil, List.nil_append, ← List.append_nil back]
    exact Spaced.nil.prepend hback
  | cons t ts ih =>
    obtain ⟨gap, gaps, rfl⟩ := List.exists_cons_of_length_eq_add_one hlength
    obtain ⟨ht, hts⟩ := List.forall_mem_cons.mp hv
    obtain ⟨hback, hgap, hgaps⟩ := by simpa only [List.forall_mem_cons] using hb
    have hlater := List.forall_mem_cons.mpr ⟨hback, hgaps⟩
    have hrest := ih hts gaps (Nat.succ.inj hlength) hlater fun g hg =>
      hne g (List.mem_of_mem_tail hg)
    rw [List.zipWith_cons_cons, List.flatten_cons, List.append_assoc, List.append_assoc]
    exact (Spaced.token ht (head?_isBlank (Nat.succ.inj hlength) hlater hne) hrest).prepend hgap

theorem unifyLines_visible (hc : isBlank c = false) (rest : List Char) :
    unifyLines (c :: rest) = c :: unifyLines rest := by
  have hnewline : c ≠ '\n' := by
    rintro rfl
    exact absurd hc (by decide)
  refine Text.unifyLines_cons hnewline ?_
  rintro rfl
  exact absurd hc (by decide)

theorem unifyLines_token (hv : ∀ c ∈ t, isBlank c = false) (rest : List Char) :
    unifyLines (t ++ rest) = t ++ unifyLines rest := by
  induction t with
  | nil => rfl
  | cons c t ih =>
    obtain ⟨hc, ht⟩ := List.forall_mem_cons.mp hv
    rw [List.cons_append, unifyLines_visible hc, ih ht, List.cons_append]

/-- A blank stays or goes. If it goes, it is a carriage return before a newline or ends the text. -/
theorem unifyLines_blank (c : Char) (rest : List Char) :
    unifyLines (c :: rest) = c :: unifyLines rest ∨
      unifyLines (c :: rest) = unifyLines rest ∧ ∀ d ∈ rest.head?, d = '\n' := by
  by_cases hc : c = '\n'
  · subst hc
    by_cases hr : rest = []
    · subst hr
      exact Or.inr ⟨rfl, nofun⟩
    · exact Or.inl (Text.unifyLines_newline hr)
  · by_cases hr : c = '\r' ∧ rest.head? = some '\n'
    · obtain ⟨rfl, hhead⟩ := hr
      obtain ⟨more, rfl⟩ := List.head?_eq_some_iff.mp hhead
      exact Or.inr ⟨Text.unifyLines_return_newline more, fun d hd => (Option.some.inj hd).symm⟩
    · exact Or.inl (Text.unifyLines_cons hc fun h hhead => hr ⟨h, hhead⟩)

theorem head?_unifyLines (h : ∀ c ∈ text.head?, isBlank c = true) :
    ∀ c ∈ (unifyLines text).head?, isBlank c = true := by
  induction text with
  | nil => nofun
  | cons c rest ih =>
    rcases unifyLines_blank c rest with he | ⟨he, hd⟩
    · rw [he]
      exact h
    · rw [he]
      refine ih fun d hmem => ?_
      rw [hd d hmem]
      decide

theorem Spaced.unifyLines (h : Spaced ts text) : Spaced ts (unifyLines text) := by
  induction h with
  | nil => exact .nil
  | @blank c rest ts hb _ ih =>
    rcases unifyLines_blank c rest with he | ⟨he, -⟩
    · exact he ▸ .blank hb ih
    · exact he ▸ ih
  | token hv hr _ ih =>
    rw [unifyLines_token hv]
    exact .token hv (head?_unifyLines hr) ih

theorem Opens.of_append (hb : ∀ style ∈ styles, ∀ c ∈ style.opening.toList, isBlank c = false)
    (hr : ∀ c ∈ rest.head?, isBlank c = true) (h : Opens styles (t ++ rest)) : Opens styles t := by
  obtain ⟨style, hs, hne, hp⟩ := h
  refine ⟨style, hs, hne, ?_⟩
  rcases List.prefix_or_prefix_of_prefix hp (List.prefix_append t rest) with ht | ⟨front, ht⟩
  · exact ht
  · cases front with
    | nil =>
      rw [← ht, List.append_nil]
    | cons c front =>
      rw [← ht, List.prefix_append_right_inj] at hp
      obtain ⟨more, rfl⟩ := hp
      have hvisible := hb style hs c (by simp [← ht])
      rw [hr c rfl] at hvisible
      cases hvisible

theorem Opens.ne_nil (h : Opens styles text) : text ≠ [] := by
  rintro rfl
  obtain ⟨style, -, hne, hp⟩ := h
  rw [String.toList_eq_nil_iff.mp (List.prefix_nil.mp hp)] at hne
  exact absurd hne (by decide)

theorem Spaced.uncommented (h : Spaced ts text)
    (hb : ∀ style ∈ styles, ∀ c ∈ style.opening.toList, isBlank c = false)
    (hts : ∀ t ∈ ts, Uncommented styles t) : Uncommented styles text := by
  induction h with
  | nil =>
    intro post hp ho
    exact ho.ne_nil (List.suffix_nil.mp hp)
  | @blank c rest ts hc _ ih =>
    intro post hp ho
    rcases List.suffix_cons_iff.mp hp with rfl | hp
    · have hhead : ∀ d ∈ (c :: rest).head?, isBlank d = true := by
        rintro d ⟨⟩
        exact hc
      exact (Opens.of_append (t := []) hb hhead ho).ne_nil rfl
    · exact ih hts post hp ho
  | @token t rest ts hv hr _ ih =>
    obtain ⟨ht, hts⟩ := List.forall_mem_cons.mp hts
    intro post hp ho
    obtain ⟨pre, hpre⟩ := hp
    rcases List.append_eq_append_iff.mp hpre with ⟨back, rfl, rfl⟩ | ⟨front, rfl, rfl⟩
    · exact ht back (List.suffix_append pre back) (ho.of_append hb hr)
    · exact ih hts post (List.suffix_append front post) ho

theorem Uncommented.of_append {pre post : List Char} (h : Uncommented styles (pre ++ (t ++ post))) :
    Uncommented styles t := by
  rintro back hback ⟨style, hs, hne, hp⟩
  refine h (back ++ post) ?_ ⟨style, hs, hne, hp.trans (List.prefix_append back post)⟩
  exact List.suffix_append_of_suffix (List.suffix_append_self_iff.mpr hback)

theorem scan_blanks (h : Spaced [] text) : scan l p text = ⟨[], l, none⟩ := by
  generalize hts : ([] : List (List Char)) = ts at h
  induction h generalizing p with
  | nil => exact scan_nil
  | blank hb _ ih =>
    rw [scan_blank hb]
    exact ih hts
  | token => cases hts

/-- A scan goes over the blanks to the first token. -/
theorem scan_to_token (h : Spaced (t :: ts) text) : ∃ q rest, Spaced ts rest ∧
    (∀ c ∈ rest.head?, isBlank c = true) ∧ scan l p text = scan l q (t ++ rest) := by
  generalize hts : t :: ts = us at h
  induction h generalizing p with
  | nil => cases hts
  | blank hb _ ih =>
    rw [scan_blank hb]
    exact ih hts
  | token hv hr h =>
    cases hts
    exact ⟨p, _, h, hr, rfl⟩

theorem intruder?_blank (l : Lexicon) (hu : ∀ c ∈ u.head?, isBlank c = true) :
    intruder? l u = none := by
  cases u with
  | nil => rfl
  | cons c u => simp [intruder?, hu c rfl]

/-- A word that a blank follows ends where it did. -/
theorem word_again (hc : isLetter c = true) (rest : List Char)
    (hu : ∀ d ∈ u.head?, isBlank d = true) : ∃ tail,
    (c :: rest).takeWhile isWordChar = c :: tail ∧
      (c :: (tail ++ u)).takeWhile isWordChar = c :: tail ∧
      (c :: (tail ++ u)).dropWhile isWordChar = u := by
  have htail : (c :: rest).takeWhile isWordChar = c :: rest.takeWhile isWordChar :=
    List.takeWhile_cons_of_pos (Text.isWordChar_of_isLetter hc)
  have hv : ∀ d ∈ c :: rest.takeWhile isWordChar, isWordChar d = true :=
    htail ▸ fun _ => List.mem_takeWhile_imp
  exact ⟨_, htail, span_append hv fun d hd => Text.isWordChar_of_isBlank (hu d hd)⟩

/-- A token that a blank follows is read again, with the same symbol and the same lexicon. -/
theorem readToken_again (h : readToken l p c rest = .token x l' rest')
    (hu : ∀ d ∈ u.head?, isBlank d = true) (q : Position) :
    ∃ tail y, x.text.toList = c :: tail ∧ readToken l q c (tail ++ u) = .token y l' u ∧
      y.unplaced = x.unplaced := by
  cases readToken_cases h with
  | word hc hf =>
    obtain ⟨tail, htail, htake, hdrop⟩ := word_again hc rest hu
    rw [htail] at hf ⊢
    refine ⟨tail, .spanning .word _ (c :: tail) q, toList_spanning _ _ _ _, ?_, rfl⟩
    rw [readToken, if_pos hc, readWord, htake, hdrop]
    dsimp only
    rw [hf]
  | identifier hc hn hf =>
    obtain ⟨tail, htail, htake, hdrop⟩ := word_again hc rest hu
    subst hn
    rw [htail] at hf ⊢
    refine ⟨tail, .spanning .identifier _ (c :: tail) q, toList_spanning _ _ _ _, ?_, rfl⟩
    rw [readToken, if_pos hc, readWord, htake, hdrop]
    dsimp only
    rw [hf]
  | @number n after literal hc hd hn hv hi =>
    obtain ⟨hproper, -, happend⟩ := longest_of_read hd hn
    obtain ⟨d, tail, htext⟩ := List.exists_cons_of_ne_nil hproper.text_ne_nil
    rw [htext] at happend
    cases happend
    have hread := Numeral.read_text_append hproper hu
    rw [htext] at hread
    refine ⟨tail, .spanning _ _ n.text q, ?_, ?_, rfl⟩
    · rw [toList_spanning, htext]
    · rw [readToken, if_neg (by simp [hc]), if_pos hd, readNumeral, ← List.cons_append, hread]
      dsimp only
      rw [hv]
      dsimp only
      rw [intruder?_blank _ hu]
  | separator hc hd hf =>
    refine ⟨[], .spanning .separator _ [c] q, toList_spanning _ _ _ _, ?_, rfl⟩
    rw [readToken, if_neg (by simp [hc]), if_neg (by simp [hd]), List.nil_append, hf]

/-- Where the tokens of a text are spaced, a scan finds them anew and leaves the same lexicon. -/
theorem scan_spaced (hf : (scan l p text).fault = none) {spaced : List Char}
    (hs : Spaced ((scan l p text).lexemes.map (·.text.toList)) spaced) (q : Position) :
    (scan l q spaced).lexemes.map Lexeme.unplaced = (scan l p text).lexemes.map Lexeme.unplaced ∧
      (scan l q spaced).lexicon = (scan l p text).lexicon ∧ (scan l q spaced).fault = none := by
  fun_induction scan l p text generalizing spaced q with
  | case1 =>
    rw [scan_blanks hs]
    exact ⟨rfl, rfl, rfl⟩
  | case2 l p c rest _ ih => exact ih hf hs q
  | case3 => cases hf
  | case4 l p c rest hb x l' rest' h ih =>
    change Spaced (x.text.toList :: _) spaced at hs
    obtain ⟨q', u, hspaced, hu, he⟩ := scan_to_token (l := l) (p := q) hs
    obtain ⟨tail, y, ht, hy, hx⟩ := readToken_again h hu q'
    obtain ⟨hxs, hl, hfault⟩ := ih hf hspaced y.next
    rw [he, ht, List.cons_append, scan_token (by simpa using hb) hy]
    exact ⟨congrArg₂ List.cons hx hxs, hl, hfault⟩

end Lexing

end Descent
