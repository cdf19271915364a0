import Descent.Proofs.Lexing.Replacement

/-!
Substitutions in place. A cursor goes along one list, and at an occurrence just what differs is cut
out and filled in. Every index, difference and range is checked, and none of them is ever off.
-/
namespace Descent.Lexing

variable {l : Lexicon} {p : String} {ps pattern result : List String} {x : Lexeme}
  {xs ys found rest pre : List Lexeme} {i count : Nat}

/-- The difference of two numbers, if it is one. -/
def sub? (m n : Nat) : Option Nat := if n ≤ m then some (m - n) else none

/-- The elements from `i` up to `j`, if there are so many. -/
def slice? {α : Type} (xs : List α) (i j : Nat) : Option (List α) :=
  if i ≤ j ∧ j ≤ xs.length then some ((xs.take j).drop i) else none

/-- The list with `new` in place of the elements from `i` up to `j`, if there are so many. -/
def splice? {α : Type} (xs : List α) (i j : Nat) (new : List α) : Option (List α) :=
  if i ≤ j ∧ j ≤ xs.length then some (xs.take i ++ new ++ xs.drop j) else none

/-- The part of the list that an occurrence gives up, and the tokens that go there. -/
structure Seam where
  start : Nat
  stop : Nat
  tokens : List String

/-- The seam of an occurrence at `i`. -/
def seam? (pattern result : List String) (i : Nat) : Option Seam := do
  let shorter := min pattern.length result.length
  let front := ((pattern.zip result).takeWhile fun (a, b) => a == b).length
  let room ← sub? shorter front
  let back := min ((pattern.reverse.zip result.reverse).takeWhile fun (a, b) => a == b).length room
  let stop ← sub? (i + pattern.length) back
  let kept ← sub? result.length back
  let tokens ← slice? result front kept
  return ⟨i + front, stop, tokens⟩

/-- Replaces the occurrence at `i`. All tokens are looked up before the list is touched. -/
def replaceAt? (l : Lexicon) (pattern result : List String) (xs : List Lexeme) (i : Nat) :
    Option (Except Fault (List Lexeme)) := do
  let seam ← seam? pattern result i
  let origin ← xs[max (seam.stop - 1) i]?
  match seam.tokens.mapM (insert l origin.first) with
  | .error f => return .error f
  | .ok new => (splice? xs seam.start seam.stop new).map .ok

theorem length_takeWhile_zip (as bs : List String) :
    ((as.zip bs).takeWhile fun (a, b) => a == b).length = commonPrefix as bs := by
  fun_induction commonPrefix as bs with
  | case1 as a bs ih => simp [ih]
  | case2 a as b bs hne => simp [hne]
  | case3 as bs hne =>
    cases as with
    | nil => rfl
    | cons a as =>
      cases bs with
      | nil => rfl
      | cons b bs => exact (hne a as b bs rfl rfl).elim

theorem seam?_eq (pattern result : List String) (i : Nat) : seam? pattern result i =
    some ⟨i + (Splice.between pattern result).front,
      i + pattern.length - (Splice.between pattern result).back,
      (Splice.between pattern result).inserted⟩ := by
  obtain ⟨hp, hr⟩ := commonPrefix_le pattern result
  have hle := between_le pattern result
  have hback : (Splice.between pattern result).back =
      min (commonPrefix pattern.reverse result.reverse)
        (min pattern.length result.length - commonPrefix pattern result) := rfl
  have hfront : (Splice.between pattern result).front = commonPrefix pattern result := rfl
  have hroom : sub? (min pattern.length result.length) (commonPrefix pattern result) =
      some (min pattern.length result.length - commonPrefix pattern result) := by
    rw [sub?, if_pos (by omega)]
  rw [hfront] at hle
  simp only [seam?, length_takeWhile_zip, hroom, Option.bind_eq_bind, Option.bind_some, ← hback]
  rw [sub?, sub?, if_pos (by omega), if_pos (by omega)]
  simp only [Option.bind_some]
  rw [slice?, if_pos (by omega)]
  rfl

theorem splice?_length {α : Type} {xs ys new : List α} {j : Nat}
    (h : splice? xs i j new = some ys) : ys.length + (j - i) = xs.length + new.length := by
  unfold splice? at h
  split at h
  · rename_i hle
    cases h
    simp only [List.length_append, List.length_take, List.length_drop]
    omega
  · cases h

theorem length_inserted (pattern result : List String) :
    (Splice.between pattern result).front + (Splice.between pattern result).inserted.length +
      (Splice.between pattern result).back = result.length := by
  obtain ⟨front, old, back, ha, hfront, hback⟩ := exists_aligned pattern result
  have hlen := congrArg List.length ha.result
  simp only [List.length_append] at hlen
  omega

theorem length_replaceAt? (h : replaceAt? l pattern result xs i = some (.ok ys)) :
    ys.length + pattern.length = xs.length + result.length := by
  have hle := between_le pattern result
  unfold replaceAt? at h
  rw [seam?_eq] at h
  obtain ⟨seam, hseam, h⟩ := Option.bind_eq_some_iff.mp h
  obtain ⟨origin, -, h⟩ := Option.bind_eq_some_iff.mp h
  cases hseam
  split at h
  · cases h
  · rename_i new hm
    obtain ⟨zs, hs, he⟩ := Option.map_eq_some_iff.mp h
    cases he
    have hnew := (mapM_eq_ok_iff.mp hm).length_eq
    have hinserted := length_inserted pattern result
    have hlen := splice?_length hs
    dsimp only at hlen hnew
    omega

/-- Goes along the list from `i` on. After an occurrence the cursor stands behind what was put in
its place. -/
def replaceInPlace? (l : Lexicon) (p : String) (ps result : List String) (xs : List Lexeme)
    (i count : Nat) : Option Replaced :=
  if i + (p :: ps).length ≤ xs.length then
    match slice? xs i (i + (p :: ps).length) with
    | none => none
    | some window =>
      if (window.zip (p :: ps)).all fun (x, text) => x.text == text then
        match _h : replaceAt? l (p :: ps) result xs i with
        | none => none
        | some (.error f) => some ⟨xs, count, some f⟩
        | some (.ok ys) => replaceInPlace? l p ps result ys (i + result.length) (count + 1)
      else replaceInPlace? l p ps result xs (i + 1) count
  else some ⟨xs, count, none⟩
termination_by xs.length - i
decreasing_by
  · have := length_replaceAt? _h
    simp only [List.length_cons] at *
    omega
  · simp only [List.length_cons] at *
    omega

/-- All rules in order, on the same list. -/
def substituteInPlace? (l : Lexicon) :
    List Substitution → List Lexeme → Option (List Lexeme × Option Fault)
  | [], xs => some (xs, none)
  | s :: rules, xs =>
    if s.isIdentity then substituteInPlace? l rules xs
    else
      match s.pattern with
      | [] => substituteInPlace? l rules xs
      | p :: ps =>
        match replaceInPlace? l p ps s.result xs 0 0 with
        | none => none
        | some ⟨ys, _, some f⟩ => some (ys, some f)
        | some ⟨ys, _, none⟩ => substituteInPlace? l rules ys

theorem slice?_append {α : Type} (pre mid post : List α) :
    slice? (pre ++ (mid ++ post)) pre.length (pre.length + mid.length) = some mid := by
  rw [slice?, if_pos (by simp only [List.length_append]; omega), List.take_length_add_append,
    List.take_left, List.drop_left]

theorem splice?_append {α : Type} (pre found rest new : List α) {front back : Nat}
    (h : front + back ≤ found.length) :
    splice? (pre ++ (found ++ rest)) (pre.length + front) (pre.length + found.length - back) new =
      some (pre ++ (found.take front ++ new ++ found.drop (found.length - back) ++ rest)) := by
  have hstop : pre.length + found.length - back = pre.length + (found.length - back) := by omega
  rw [splice?, if_pos (by simp only [List.length_append]; omega), hstop,
    List.take_length_add_append, List.drop_length_add_append,
    List.take_append_of_le_length (by omega), List.drop_append_of_le_length (by omega)]
  simp only [List.append_assoc]

/-- The origin of an occurrence within the whole list. -/
theorem getElem?_seam (pre rest : List Lexeme) {back : Nat} (hne : found ≠ []) :
    (pre ++ (found ++ rest))[max (pre.length + found.length - back - 1) pre.length]? =
      found[found.length - back - 1]? := by
  have hpos := List.length_pos_iff.mpr hne
  have hplace : max (pre.length + found.length - back - 1) pre.length =
      pre.length + (found.length - back - 1) := by
    omega
  rw [hplace, List.getElem?_append_right (by omega), Nat.add_sub_cancel_left,
    List.getElem?_append_left (by omega)]

theorem replaceAt?_eq (l : Lexicon) (result : List String) (hm : found.map Lexeme.text = pattern)
    (hne : pattern ≠ []) (pre rest : List Lexeme) :
    replaceAt? l pattern result (pre ++ (found ++ rest)) pre.length =
      some (((Splice.between pattern result).apply l found).map fun new =>
        pre ++ (new ++ rest)) := by
  have hfound := ne_nil_of_texts hm hne
  have hlen : pattern.length = found.length := by rw [← hm, List.length_map]
  obtain ⟨x, hx, horigin⟩ := exists_origin (s := Splice.between pattern result) hfound
  have hkept := kept_le pattern result
  rw [hlen] at hkept
  rw [replaceAt?, seam?_eq, Splice.apply, horigin, hlen]
  simp only [Option.bind_eq_bind, Option.bind_some, getElem?_seam pre rest hfound, hx]
  cases (Splice.between pattern result).inserted.mapM (insert l x.first) with
  | error f => rfl
  | ok new =>
    dsimp only
    rw [splice?_append pre found rest new hkept]
    rfl

theorem all_zip_iff (h : found.length = pattern.length) :
    ((found.zip pattern).all fun (x, text) => x.text == text) = true ↔
      found.map Lexeme.text = pattern := by
  induction found generalizing pattern with
  | nil =>
    rw [List.eq_nil_of_length_eq_zero h.symm]
    simp
  | cons x found ih =>
    cases pattern with
    | nil => cases h
    | cons text pattern => simp [ih (Nat.succ.inj h)]

/-- Too few lexemes for an occurrence are left as they are. -/
theorem replaceAll_short {s : Splice} (h : xs.length < (p :: ps).length) :
    replaceAll l p ps s xs = ⟨xs, 0, none⟩ := by
  induction xs with
  | nil => exact replaceAll_nil
  | cons x xs ih =>
    have hkept : ¬ (x.text = p ∧ (xs.take ps.length).map Lexeme.text = ps) := by
      rintro ⟨-, hm⟩
      have hlen := length_of_matches (x := x) hm
      simp only [List.length_cons, List.length_take] at h hlen
      omega
    rw [replaceAll_kept hkept, ih (Nat.lt_of_succ_lt h)]
    rfl

variable (l p ps result) in
/-- The window at the cursor, if the list is long enough for one. -/
theorem replaceInPlace?_window (pre rest : List Lexeme) (count : Nat)
    (hlen : found.length = (p :: ps).length) :
    replaceInPlace? l p ps result (pre ++ (found ++ rest)) pre.length count =
      if found.map Lexeme.text = p :: ps then
        match (Splice.between (p :: ps) result).apply l found with
        | .error f => some ⟨pre ++ (found ++ rest), count, some f⟩
        | .ok new => replaceInPlace? l p ps result (pre ++ (new ++ rest))
            (pre.length + result.length) (count + 1)
      else replaceInPlace? l p ps result (pre ++ (found ++ rest)) (pre.length + 1) count := by
  have hfits : pre.length + (p :: ps).length ≤ (pre ++ (found ++ rest)).length := by
    simp only [List.length_append, hlen]
    omega
  rw [replaceInPlace?, if_pos hfits, ← hlen, slice?_append]
  dsimp only
  by_cases hm : found.map Lexeme.text = p :: ps
  · rw [if_pos ((all_zip_iff hlen).mpr hm), if_pos hm]
    have hat := replaceAt?_eq l result hm (List.cons_ne_nil p ps) pre rest
    cases ha : (Splice.between (p :: ps) result).apply l found with
    | error f =>
      rw [ha] at hat
      split <;> simp_all [Except.map]
    | ok new =>
      rw [ha] at hat
      split <;> simp_all [Except.map]
  · rw [if_neg (mt (all_zip_iff hlen).mp hm), if_neg hm]

variable (l result) in
/-- What happens where an occurrence begins. -/
theorem replaceInPlace?_match (hm : x.text = p ∧ (xs.take ps.length).map Lexeme.text = ps)
    (pre : List Lexeme) (count : Nat) :
    replaceInPlace? l p ps result (pre ++ x :: xs) pre.length count =
      match (Splice.between (p :: ps) result).apply l (x :: xs.take ps.length) with
      | .error f => some ⟨pre ++ x :: xs, count, some f⟩
      | .ok new => replaceInPlace? l p ps result (pre ++ (new ++ xs.drop ps.length))
          (pre.length + result.length) (count + 1) := by
  have hwindow := replaceInPlace?_window l p ps result pre (xs.drop ps.length) count
    (length_of_matches (x := x) hm.2)
  rw [List.cons_append, List.take_append_drop, if_pos (texts_of_matches hm)] at hwindow
  exact hwindow

theorem replaceInPlace?_short (h : xs.length < (p :: ps).length) (pre : List Lexeme)
    (count : Nat) : replaceInPlace? l p ps result (pre ++ xs) pre.length count =
      some ⟨pre ++ xs, count, none⟩ := by
  rw [replaceInPlace?, if_neg (by simp only [List.length_append]; omega)]

/-- With the cursor behind what has been gone through, the run does to the rest what the replacement
of all occurrences does. -/
theorem replaceInPlace?_eq (l : Lexicon) (p : String) (ps result : List String) (xs : List Lexeme)
    (pre : List Lexeme) (count : Nat) {r : Replaced}
    (hr : replaceAll l p ps (.between (p :: ps) result) xs = r) :
    replaceInPlace? l p ps result (pre ++ xs) pre.length count =
      some ⟨pre ++ r.lexemes, count + r.count, r.fault⟩ := by
  subst hr
  generalize hs : Splice.between (p :: ps) result = s
  fun_induction replaceAll l p ps s xs generalizing pre count with
  | case1 =>
    have hshort : ([] : List Lexeme).length < (p :: ps).length := Nat.zero_lt_succ _
    exact replaceInPlace?_short hshort pre count
  | case2 x xs hm f ha =>
    subst hs
    rw [replaceInPlace?_match l result hm, ha]
    rfl
  | case3 x xs hm new ha ih =>
    subst hs
    have hput := (replaces_of_apply (texts_of_matches hm) (List.cons_ne_nil p ps) ha).texts.2
    have hlen : new.length = result.length := by rw [← hput, List.length_map]
    have hlater := ih (pre ++ new) (count + 1)
    rw [List.length_append, hlen, List.append_assoc] at hlater
    rw [replaceInPlace?_match l result hm, ha]
    dsimp only
    rw [hlater]
    simp only [Replaced.after, List.append_assoc, Nat.add_assoc, Nat.add_comm 1]
  | case4 x xs hm ih =>
    by_cases hshort : (x :: xs).length < (p :: ps).length
    · rw [replaceInPlace?_short hshort, replaceAll_short (Nat.lt_of_succ_lt hshort)]
      rfl
    · have hlen : ((x :: xs).take (p :: ps).length).length = (p :: ps).length :=
        List.length_take_of_le (Nat.le_of_not_lt hshort)
      have hnot : ¬ ((x :: xs).take (p :: ps).length).map Lexeme.text = p :: ps := by
        intro he
        rw [List.length_cons, List.take_succ_cons, List.map_cons] at he
        exact hm (List.cons.inj he)
      have hwindow := replaceInPlace?_window l p ps result pre ((x :: xs).drop (p :: ps).length)
        count hlen
      rw [List.take_append_drop, if_neg hnot] at hwindow
      have hlater := ih (pre ++ [x]) count
      rw [List.length_append, List.append_assoc, List.length_singleton,
        List.singleton_append] at hlater
      rw [hwindow, hlater]
      simp only [Replaced.cons, List.append_assoc, List.singleton_append]

theorem substituteInPlace?_of_runs {rules : List Substitution} {o : Option Fault}
    (h : Runs l rules xs ys o) : substituteInPlace? l rules xs = some (ys, o) := by
  induction h with
  | nil => rfl
  | skipped hs _ ih =>
    rw [substituteInPlace?]
    rcases hs with hs | hs
    · rw [if_pos hs, ih]
    · simp only [hs, ih, ite_self]
  | @stopped t ts xs q qs r f hi hp hr hf =>
    have hrun : replaceInPlace? l q qs t.result xs 0 0 = _ :=
      replaceInPlace?_eq l q qs t.result xs [] 0 hr
    rw [hf] at hrun
    rw [substituteInPlace?, if_neg hi, hp]
    dsimp only
    rw [hrun]
    rfl
  | @passed t ts xs ys o q qs r hi hp hr hf _ ih =>
    have hrun : replaceInPlace? l q qs t.result xs 0 0 = _ :=
      replaceInPlace?_eq l q qs t.result xs [] 0 hr
    rw [hf] at hrun
    rw [substituteInPlace?, if_neg hi, hp]
    dsimp only
    rw [hrun]
    exact ih

theorem substituteInPlace?_eq (l : Lexicon) (rules : List Substitution) (xs : List Lexeme) :
    substituteInPlace? l rules xs =
      some ((substitute l rules xs).lexemes, (substitute l rules xs).fault) :=
  substituteInPlace?_of_runs (runs_substitute l rules xs)

/-- Substitutions that come to their end, in place, replace the occurrences of each pattern in turn,
the leftmost first; no lexeme that stays is changed, and the texts are those of the results. -/
theorem substitutions_in_place (l : Lexicon) (rules : List Substitution) (xs : List Lexeme)
    (h : (substitute l rules xs).fault = none) :
    substituteInPlace? l rules xs = some ((substitute l rules xs).lexemes, none) ∧
      RewrittenBy l rules xs (substitute l rules xs).lexemes ∧
      (substitute l rules xs).lexemes.map Lexeme.text =
        rules.foldl rewriteTexts (xs.map Lexeme.text) := by
  have hby := rewrittenBy_of_runs (runs_substitute l rules xs) h
  refine ⟨?_, hby, hby.texts⟩
  rw [substituteInPlace?_eq, h]

/-- Words and separators among which some are made of others. -/
def blocks : Lexicon := .seeded ["begin", "end"] ["<", "=", "<="]

/-- What is kept in front and at the back of the second pattern would overlap. -/
def contractions : List Substitution := [⟨"< =", "<="⟩, ⟨"end end", "end"⟩, ⟨"begin", ""⟩]

def nestedBlocks : List Lexeme := (scan blocks .start "begin a < = b end end end".toList).lexemes

theorem substitutions_in_place_contracted :
    (substitute blocks contractions nestedBlocks).fault = none ∧
      (∃ ys, substituteInPlace? blocks contractions nestedBlocks = some (ys, none) ∧
        RewrittenBy blocks contractions nestedBlocks ys ∧
        ys.map Lexeme.text = ["a", "<=", "b", "end", "end"] ∧
        ys.map (fun y => (y.firstColumn, y.lastColumn)) =
          [(7, 7), (11, 11), (13, 13), (15, 17), (23, 25)]) := by
  have hf : (substitute blocks contractions nestedBlocks).fault = none := by decide +kernel
  obtain ⟨hrun, hby, htexts⟩ := substitutions_in_place blocks contractions nestedBlocks hf
  exact ⟨hf, _, hrun, hby, htexts.trans (by decide +kernel), by decide +kernel⟩

end Descent.Lexing
