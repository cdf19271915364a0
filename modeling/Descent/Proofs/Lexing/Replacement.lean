import Descent.Proofs.Lexing.Sorting

/-!
What a substitution makes of a list as a whole. Its pattern is looked for in the texts, from the
left and without overlap. In the place of an occurrence stands the result; what pattern and result
share at their ends stays the lexemes that were there.
-/
namespace Descent.Lexing

open Text (Position)

variable {l : Lexicon} {p : String} {ps pattern result front old new back : List String}
  {x y : Lexeme} {xs ys gap found put rest : List Lexeme}

/-- Lists that do not begin alike. -/
def Diverge (as bs : List String) : Prop := ∀ a us vs, as = a :: us → bs ≠ a :: vs

/-- Pattern and result share `front`, of what is then left they share `back` at the end, and each
of the two is as long as can be. -/
structure Aligned (pattern result front old new back : List String) : Prop where
  pattern : pattern = front ++ (old ++ back)
  result : result = front ++ (new ++ back)
  heads : Diverge (old ++ back) (new ++ back)
  ends : Diverge old.reverse new.reverse

theorem exists_commonPrefix (as bs : List String) : ∃ shared us vs, as = shared ++ us ∧
    bs = shared ++ vs ∧ shared.length = commonPrefix as bs ∧ Diverge us vs := by
  fun_induction commonPrefix as bs with
  | case1 as a bs ih =>
    obtain ⟨shared, us, vs, rfl, rfl, hlen, hd⟩ := ih
    exact ⟨a :: shared, us, vs, rfl, rfl, congrArg (· + 1) hlen, hd⟩
  | case2 a as b bs hne =>
    refine ⟨[], a :: as, b :: bs, rfl, rfl, rfl, ?_⟩
    intro c us vs ha hb
    cases ha
    cases hb
    exact hne rfl
  | case3 as bs hne =>
    refine ⟨[], as, bs, rfl, rfl, rfl, ?_⟩
    intro c us vs ha hb
    exact hne c us c vs ha hb

theorem commonPrefix_take (as bs : List String) (m n : Nat) :
    commonPrefix (as.take m) (bs.take n) = min (commonPrefix as bs) (min m n) := by
  fun_induction commonPrefix as bs generalizing m n with
  | case1 as a bs ih =>
    cases m with
    | zero => simp [commonPrefix]
    | succ m =>
      cases n with
      | zero => simp [commonPrefix]
      | succ n =>
        rw [List.take_succ_cons, List.take_succ_cons, commonPrefix, if_pos rfl, ih]
        omega
  | case2 a as b bs hne => cases m <;> cases n <;> simp [commonPrefix, hne]
  | case3 as bs hne =>
    cases as with
    | nil => simp [commonPrefix]
    | cons a as =>
      cases bs with
      | nil => cases m <;> simp [commonPrefix]
      | cons b bs => exact (hne a as b bs rfl rfl).elim

/-- The clamp of a splice leaves of the back what the two sides share without their front. -/
theorem exists_aligned (pattern result : List String) : ∃ front old back,
    Aligned pattern result front old (Splice.between pattern result).inserted back ∧
      front.length = (Splice.between pattern result).front ∧
      back.length = (Splice.between pattern result).back := by
  obtain ⟨front, as, bs, hp, hr, hfront, heads⟩ := exists_commonPrefix pattern result
  obtain ⟨shared, us, vs, ha, hb, hshared, hends⟩ := exists_commonPrefix as.reverse bs.reverse
  have has : as = us.reverse ++ shared.reverse := by
    rw [← List.reverse_append, ← ha, List.reverse_reverse]
  have hbs : bs = vs.reverse ++ shared.reverse := by
    rw [← List.reverse_append, ← hb, List.reverse_reverse]
  have hback : shared.length = (Splice.between pattern result).back := by
    have htake := commonPrefix_take pattern.reverse result.reverse as.length bs.length
    rw [hp, hr, List.reverse_append, List.reverse_append, List.take_left' List.length_reverse,
      List.take_left' List.length_reverse, ← hshared] at htake
    rw [htake, Splice.between, ← hfront, hp, hr]
    simp only [List.length_append, List.reverse_append]
    omega
  have hinserted : (Splice.between pattern result).inserted = vs.reverse := by
    have hlen : result.length - shared.length = (front ++ vs.reverse).length := by
      rw [hr, hbs]
      simp only [List.length_append, List.length_reverse]
      omega
    rw [Splice.between] at hback ⊢
    dsimp only at hback ⊢
    rw [← hback, hlen, ← hfront, hr, hbs, ← List.append_assoc, List.take_left, List.drop_left]
  rw [hinserted]
  refine ⟨front, us.reverse, shared.reverse, ⟨has ▸ hp, hbs ▸ hr, ?_, ?_⟩, hfront, ?_⟩
  · exact has ▸ hbs ▸ heads
  · rw [List.reverse_reverse, List.reverse_reverse]
    exact hends
  · rw [List.length_reverse, hback]

theorem shared_unique {shared us vs shared' us' vs' : List String}
    (ha : shared ++ us = shared' ++ us') (hb : shared ++ vs = shared' ++ vs')
    (hd : Diverge us vs) (hd' : Diverge us' vs') : shared = shared' := by
  induction shared generalizing shared' with
  | nil =>
    cases shared' with
    | nil => rfl
    | cons a shared' => exact (hd a _ _ ha hb).elim
  | cons a shared ih =>
    cases shared' with
    | nil => exact (hd' a _ _ ha.symm hb.symm).elim
    | cons b shared' =>
      obtain ⟨rfl, ha'⟩ := List.cons.inj ha
      exact congrArg (a :: ·) (ih ha' (List.cons.inj hb).2)

/-- There is one way to align two lists. -/
theorem Aligned.unique {front' old' new' back' : List String}
    (h : Aligned pattern result front old new back)
    (h' : Aligned pattern result front' old' new' back') :
    front = front' ∧ old = old' ∧ new = new' ∧ back = back' := by
  have hp := h.pattern.symm.trans h'.pattern
  have hr := h.result.symm.trans h'.result
  obtain rfl : front = front' := shared_unique hp hr h.heads h'.heads
  have ho := congrArg List.reverse (List.append_cancel_left hp)
  have hn := congrArg List.reverse (List.append_cancel_left hr)
  simp only [List.reverse_append] at ho hn
  have hb := List.reverse_injective (shared_unique ho hn h.ends h'.ends)
  subst hb
  exact ⟨rfl, List.reverse_injective (List.append_cancel_left ho),
    List.reverse_injective (List.append_cancel_left hn), rfl⟩

/-- The lexeme of a token, at the place where `x` begins. -/
structure Supplied (l : Lexicon) (x : Lexeme) (token : String) (y : Lexeme) : Prop where
  text : y.text = token
  terminal : l.terminal? token = some (y.category, y.symbol)
  line : y.line = x.line
  firstColumn : y.firstColumn = x.firstColumn
  lastColumn : y.lastColumn = x.firstColumn

theorem supplied_of_insert {token : String} (h : insert l x.first token = .ok y) :
    Supplied l x token y := by
  obtain ⟨category, i, ht, rfl⟩ := insert_eq_ok_iff.mp h
  exact ⟨rfl, ht, rfl, rfl, rfl⟩

/-- The last of the lexemes before the back, or else the first one there is. -/
def origin? (before back : List Lexeme) : Option Lexeme := before.getLast?.or back.head?

/-- `found` gives way to `put`: front and back stay, and the tokens between them are laid where the
origin begins. -/
inductive Replaces (l : Lexicon) (pattern result : List String) : List Lexeme → List Lexeme → Prop
  | intro {front old new back : List String} {kept gone kept' laid : List Lexeme} {x : Lexeme}
      (aligned : Aligned pattern result front old new back)
      (hfront : kept.map Lexeme.text = front) (hold : gone.map Lexeme.text = old)
      (hback : kept'.map Lexeme.text = back) (horigin : origin? (kept ++ gone) kept' = some x)
      (hlaid : List.Forall₂ (Supplied l x) new laid) :
      Replaces l pattern result (kept ++ gone ++ kept') (kept ++ laid ++ kept')

theorem Replaces.texts (h : Replaces l pattern result found put) :
    found.map Lexeme.text = pattern ∧ put.map Lexeme.text = result := by
  obtain ⟨aligned, rfl, rfl, rfl, -, hlaid⟩ := h
  rename_i new _ _ _ laid _
  have hnew : laid.map Lexeme.text = new := by
    clear aligned
    induction hlaid with
    | nil => rfl
    | cons h _ ih => rw [List.map_cons, h.text, ih]
  rw [aligned.pattern, aligned.result, ← hnew]
  simp only [List.map_append, List.append_assoc, and_self]

theorem getElem?_origin (before back : List Lexeme) :
    (before ++ back)[(before ++ back).length - back.length - 1]? = origin? before back := by
  rw [List.length_append, Nat.add_sub_cancel, origin?]
  rcases List.eq_nil_or_concat before with rfl | ⟨before, x, rfl⟩
  · rw [List.nil_append, List.head?_eq_getElem?]
    rfl
  · simp

theorem ne_nil_of_texts (hm : found.map Lexeme.text = pattern) (hne : pattern ≠ []) :
    found ≠ [] := by
  rintro rfl
  exact hne hm.symm

/-- A match and its pattern, cut at the same places. -/
theorem exists_of_aligned (ha : Aligned pattern result front old new back)
    (hm : found.map Lexeme.text = pattern) : ∃ kept gone kept', found = kept ++ gone ++ kept' ∧
      kept.map Lexeme.text = front ∧ gone.map Lexeme.text = old ∧ kept'.map Lexeme.text = back := by
  rw [ha.pattern] at hm
  obtain ⟨kept, rest, rfl, hkept, hrest⟩ := List.map_eq_append_iff.mp hm
  obtain ⟨gone, kept', rfl, hgone, hkept'⟩ := List.map_eq_append_iff.mp hrest
  exact ⟨kept, gone, kept', (List.append_assoc _ _ _).symm, hkept, hgone, hkept'⟩

theorem exists_origin? {s : Splice} {before back : List Lexeme} (hback : back.length = s.back)
    (hne : before ++ back ≠ []) :
    ∃ x, origin? before back = some x ∧ s.origin (before ++ back) = x.first := by
  obtain ⟨x, hx, horigin⟩ := exists_origin (s := s) hne
  rw [← hback, getElem?_origin] at hx
  exact ⟨x, hx, horigin⟩

theorem replaces_of_apply (hm : found.map Lexeme.text = pattern) (hne : pattern ≠ [])
    (h : (Splice.between pattern result).apply l found = .ok put) :
    Replaces l pattern result found put := by
  obtain ⟨front, old, back, ha, hfront, hback⟩ := exists_aligned pattern result
  obtain ⟨kept, gone, kept', rfl, rfl, rfl, rfl⟩ := exists_of_aligned ha hm
  rw [List.length_map] at hfront hback
  obtain ⟨laid, hlaid, rfl⟩ := map_eq_ok_iff.mp h
  obtain ⟨x, hx, horigin⟩ := exists_origin? hback (ne_nil_of_texts hm hne)
  have htake : (kept ++ gone ++ kept').take (Splice.between pattern result).front = kept := by
    rw [← hfront, List.append_assoc, List.take_left]
  have hdrop : (kept ++ gone ++ kept').drop
      ((kept ++ gone ++ kept').length - (Splice.between pattern result).back) = kept' := by
    rw [← hback, List.length_append, Nat.add_sub_cancel, List.drop_left]
  rw [htake, hdrop]
  refine .intro ha rfl rfl rfl hx ((mapM_eq_ok_iff.mp hlaid).imp fun token y ht => ?_)
  rw [horigin] at ht
  exact supplied_of_insert ht

/-- The leftmost place at which the pattern occurs in the texts. -/
structure Leftmost (pattern : List String) (xs gap found rest : List Lexeme) : Prop where
  split : xs = gap ++ found ++ rest
  here : found.map Lexeme.text = pattern
  first : ∀ i < gap.length, ¬ pattern <+: (xs.drop i).map Lexeme.text

/-- Every occurrence of the pattern is replaced, the leftmost first and then those that come after
it. Nothing else is touched. -/
inductive Rewritten (l : Lexicon) (pattern result : List String) : List Lexeme → List Lexeme → Prop
  | done {xs : List Lexeme} (h : ¬ pattern <:+: xs.map Lexeme.text) :
      Rewritten l pattern result xs xs
  | occurrence {xs gap found put rest rest' : List Lexeme}
      (leftmost : Leftmost pattern xs gap found rest)
      (replaced : Replaces l pattern result found put)
      (later : Rewritten l pattern result rest rest') :
      Rewritten l pattern result xs (gap ++ put ++ rest')

/-- What the texts become where each occurrence of the pattern `p :: ps` is replaced. -/
def replaceTexts (p : String) (ps result texts : List String) : List String :=
  match texts with
  | [] => []
  | text :: rest =>
    if (p :: ps).isPrefixOf (text :: rest) then
      result ++ replaceTexts p ps result (rest.drop ps.length)
    else text :: replaceTexts p ps result rest
termination_by texts.length
decreasing_by all_goals simp only [List.length_drop, List.length_cons]; omega

theorem matches_iff_begins : (x.text = p ∧ (xs.take ps.length).map Lexeme.text = ps) ↔
    p :: ps <+: (x :: xs).map Lexeme.text := by
  rw [List.map_cons, List.cons_prefix_cons, List.prefix_iff_eq_take, List.map_take]
  exact and_congr eq_comm eq_comm

theorem texts_of_matches (h : x.text = p ∧ (xs.take ps.length).map Lexeme.text = ps) :
    (x :: xs.take ps.length).map Lexeme.text = p :: ps := by
  rw [List.map_cons, h.1, h.2]

theorem leftmost_of_matches (h : x.text = p ∧ (xs.take ps.length).map Lexeme.text = ps) :
    Leftmost (p :: ps) (x :: xs) [] (x :: xs.take ps.length) (xs.drop ps.length) where
  split := by rw [List.nil_append, List.cons_append, List.take_append_drop]
  here := texts_of_matches h
  first := nofun

theorem Leftmost.cons (hx : ¬ pattern <+: (x :: xs).map Lexeme.text)
    (h : Leftmost pattern xs gap found rest) :
    Leftmost pattern (x :: xs) (x :: gap) found rest where
  split := congrArg (x :: ·) h.split
  here := h.here
  first i hi := by
    cases i with
    | zero => exact hx
    | succ i => exact h.first i (Nat.lt_of_succ_lt_succ hi)

/-- A lexeme at which no occurrence begins stays where it is. -/
theorem Rewritten.cons (hx : ¬ pattern <+: (x :: xs).map Lexeme.text)
    (h : Rewritten l pattern result xs ys) : Rewritten l pattern result (x :: xs) (x :: ys) := by
  cases h with
  | done h =>
    refine .done fun ho => ?_
    rcases List.infix_cons_iff.mp ho with hbegins | hlater
    · exact hx hbegins
    · exact h hlater
  | occurrence leftmost replaced later => exact .occurrence (leftmost.cons hx) replaced later

theorem rewritten_replaceAll
    (h : (replaceAll l p ps (.between (p :: ps) result) xs).fault = none) :
    Rewritten l (p :: ps) result xs
      (replaceAll l p ps (.between (p :: ps) result) xs).lexemes := by
  generalize hs : Splice.between (p :: ps) result = s at h ⊢
  fun_induction replaceAll l p ps s xs with
  | case1 => exact .done (by simp)
  | case2 => cases h
  | case3 x xs hm new ha ih =>
    subst hs
    have hput := replaces_of_apply (texts_of_matches hm) (List.cons_ne_nil p ps) ha
    exact .occurrence (leftmost_of_matches hm) hput (ih h)
  | case4 x xs hm ih => exact (ih h).cons (mt matches_iff_begins.mpr hm)

/-- Texts among which no occurrence begins stay where they are. -/
theorem replaceTexts_gap (result : List String) {gap rest : List String}
    (h : ∀ i < gap.length, ¬ p :: ps <+: (gap ++ rest).drop i) :
    replaceTexts p ps result (gap ++ rest) = gap ++ replaceTexts p ps result rest := by
  induction gap with
  | nil => rfl
  | cons text gap ih =>
    have hhere : ¬ (p :: ps).isPrefixOf (text :: (gap ++ rest)) = true :=
      mt List.isPrefixOf_iff_prefix.mp (h 0 (Nat.zero_lt_succ _))
    have hlater := ih fun i hi => h (i + 1) (Nat.succ_lt_succ hi)
    rw [List.cons_append, replaceTexts, if_neg hhere, hlater, List.cons_append]

theorem Rewritten.texts (h : Rewritten l (p :: ps) result xs ys) :
    ys.map Lexeme.text = replaceTexts p ps result (xs.map Lexeme.text) := by
  induction h with
  | @done xs h =>
    have hnone : ∀ i < (xs.map Lexeme.text).length,
        ¬ p :: ps <+: (xs.map Lexeme.text ++ []).drop i := by
      intro i _ hbegins
      rw [List.append_nil] at hbegins
      exact h (hbegins.isInfix.trans (List.drop_suffix i _).isInfix)
    have hgap := replaceTexts_gap result hnone
    rw [replaceTexts, List.append_nil] at hgap
    exact hgap.symm
  | @occurrence xs gap found put rest rest' leftmost replaced _ ih =>
    obtain ⟨rfl, here, first⟩ := leftmost
    have hnone : ∀ i < (gap.map Lexeme.text).length, ¬ p :: ps <+:
        (gap.map Lexeme.text ++ (found.map Lexeme.text ++ rest.map Lexeme.text)).drop i := by
      intro i hi
      have hnot := first i (by simpa using hi)
      rw [List.map_drop, List.map_append, List.map_append, List.append_assoc] at hnot
      exact hnot
    have hhere : (p :: ps).isPrefixOf (p :: (ps ++ rest.map Lexeme.text)) = true :=
      List.isPrefixOf_iff_prefix.mpr (List.prefix_append (p :: ps) _)
    have hgap := replaceTexts_gap result hnone
    rw [here, List.cons_append, replaceTexts, if_pos hhere, List.drop_left] at hgap
    rw [List.map_append, List.map_append, List.map_append, List.map_append, List.append_assoc,
      List.append_assoc, here, replaced.texts.2, ih, List.cons_append, hgap]

/-- The rules work one after the other on the whole list. One that changes nothing, or looks for
nothing, is passed over. -/
inductive RewrittenBy (l : Lexicon) : List Substitution → List Lexeme → List Lexeme → Prop
  | nil {xs : List Lexeme} : RewrittenBy l [] xs xs
  | skip {s : Substitution} {rules : List Substitution} {xs ys : List Lexeme}
      (hs : s.pattern = s.result ∨ s.pattern = []) (later : RewrittenBy l rules xs ys) :
      RewrittenBy l (s :: rules) xs ys
  | rule {s : Substitution} {rules : List Substitution} {xs ys zs : List Lexeme}
      (hs : s.pattern ≠ s.result) (hp : s.pattern ≠ [])
      (here : Rewritten l s.pattern s.result xs ys) (later : RewrittenBy l rules ys zs) :
      RewrittenBy l (s :: rules) xs zs

/-- What a rule makes of texts. -/
def rewriteTexts (texts : List String) (s : Substitution) : List String :=
  if s.isIdentity then texts
  else
    match s.pattern with
    | [] => texts
    | p :: ps => replaceTexts p ps s.result texts

theorem rewrittenBy_of_runs {rules : List Substitution} {o : Option Fault}
    (h : Runs l rules xs ys o) (ho : o = none) : RewrittenBy l rules xs ys := by
  induction h with
  | nil => exact .nil
  | skipped hs _ ih =>
    rw [Substitution.isIdentity, decide_eq_true_eq] at hs
    exact .skip hs (ih ho)
  | stopped => cases ho
  | passed hi hp hr hf _ ih =>
    subst hr
    rw [Substitution.isIdentity, decide_eq_true_eq] at hi
    refine .rule hi (by simp [hp]) ?_ (ih ho)
    rw [hp]
    exact rewritten_replaceAll hf

theorem RewrittenBy.texts {rules : List Substitution} (h : RewrittenBy l rules xs ys) :
    ys.map Lexeme.text = rules.foldl rewriteTexts (xs.map Lexeme.text) := by
  induction h with
  | nil => rfl
  | @skip s rules xs ys hs _ ih =>
    have hsame : rewriteTexts (xs.map Lexeme.text) s = xs.map Lexeme.text := by
      rcases hs with hs | hs <;> simp [rewriteTexts, Substitution.isIdentity, hs]
    rw [List.foldl_cons, hsame, ih]
  | @rule s rules xs ys zs hs hp here _ ih =>
    obtain ⟨p, ps, hpattern⟩ := List.exists_cons_of_ne_nil hp
    have hthis : rewriteTexts (xs.map Lexeme.text) s = ys.map Lexeme.text := by
      rw [hpattern] at here
      rw [rewriteTexts, if_neg (by simpa [Substitution.isIdentity] using hs), hpattern, here.texts]
    rw [List.foldl_cons, hthis, ih]

end Descent.Lexing
