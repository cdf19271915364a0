import Descent.Proofs.Lexing.Sorting

/-!
What stops a scan. It is a character that can begin no token, one that may not follow a numeral, or
a numeral without value. The text before that token is scanned to its end, with the same lexemes,
for no token before it reaches so far.
-/
namespace Descent.Lexing

open Text (Position isBlank isLetter isWordChar)

variable {l l' : Lexicon} {p : Position} {c : Char} {x : Lexeme} {f : Fault}
  {text rest rest' pre post front back : List Char}

theorem append_of_readToken (h : readToken l p c rest = .token x l' rest') :
    c :: rest = x.text.toList ++ rest' := by
  cases readToken_cases h with
  | word | identifier => rw [toList_spanning, List.takeWhile_append_dropWhile]
  | number _ hd hn =>
    rw [toList_spanning]
    exact (longest_of_read hd hn).2.2.symm
  | separator =>
    rw [toList_spanning]
    rfl

theorem intruder?_cut (h : intruder? l (back ++ post) = none) : intruder? l back = none := by
  cases back with
  | nil => rfl
  | cons c back => exact h

/-- A word ends where it ended, or else with the text. -/
theorem word_cut (h : back ++ post = (c :: rest).dropWhile isWordChar)
    (hf : c :: front = (c :: rest).takeWhile isWordChar ++ back) :
    (c :: front).takeWhile isWordChar = (c :: rest).takeWhile isWordChar ∧
      (c :: front).dropWhile isWordChar = back := by
  rw [hf]
  refine span_append (fun _ => List.mem_takeWhile_imp) fun d hd => ?_
  have hnext := List.head?_dropWhile_not isWordChar (c :: rest)
  rw [← h, List.head?_append, Option.mem_def.mp hd] at hnext
  simpa using hnext

theorem readToken_cut (h : readToken l p c rest = .token x l' (back ++ post))
    (hf : c :: front = x.text.toList ++ back) : readToken l p c front = .token x l' back := by
  generalize ho : back ++ post = after at h
  cases readToken_cases h with
  | word hc hi =>
    rw [toList_spanning] at hf
    obtain ⟨hw, hr⟩ := word_cut ho hf
    rw [readToken, if_pos hc, readWord]
    dsimp only
    rw [hw, hr, hi]
  | identifier hc hn hi =>
    rw [toList_spanning] at hf
    obtain ⟨hw, hr⟩ := word_cut ho hf
    subst hn
    rw [readToken, if_pos hc, readWord]
    dsimp only
    rw [hw, hr, hi]
  | number hc hd hn hv hi =>
    subst ho
    rw [toList_spanning] at hf
    have hread := Numeral.read_cut hd hn hf
    rw [readToken, if_neg (by simp [hc]), if_pos hd, readNumeral]
    dsimp only
    rw [hread, hv]
    dsimp only
    rw [intruder?_cut hi]
  | separator hc hd hi =>
    rw [toList_spanning] at hf
    cases hf
    rw [readToken, if_neg (by simp [hc]), if_neg (by simp [hd]), hi]
    rfl

/-- A scan that is stopped has read all lexemes before the place of some token. -/
theorem scan_cut (h : (scan l p text).fault = some f) :
    ∃ pre c rest l' l'', text = pre ++ c :: rest ∧
      scan l p pre = ⟨(scan l p text).lexemes, l', none⟩ ∧ isBlank c = false ∧
      readToken l' (p.through pre) c rest = .fault f l'' := by
  fun_induction scan l p text with
  | case1 => cases h
  | case2 l p c rest hb ih =>
    obtain ⟨pre, d, rest, l', l'', rfl, hs, hd, hr⟩ := ih h
    refine ⟨c :: pre, d, rest, l', l'', rfl, ?_, hd, hr⟩
    rw [scan_blank hb, hs]
  | case3 l p c rest hb f' l' hr =>
    cases h
    exact ⟨[], c, rest, l, l', rfl, scan_nil, by simpa using hb, hr⟩
  | case4 l p c rest hb x l' rest' hr ih =>
    have hb : isBlank c = false := by simpa using hb
    obtain ⟨pre, d, rest'', m, m', rfl, hs, hd, hfault⟩ := ih h
    have happend := append_of_readToken hr
    have hx := standsAt_of_readToken hb hr
    obtain ⟨token, htoken⟩ : ∃ token, x.text.toList = c :: token := by
      cases hlist : x.text.toList with
      | nil => exact (hx.ne_nil hlist).elim
      | cons b token =>
        rw [hlist, List.cons_append] at happend
        exact ⟨token, by rw [(List.cons.inj happend).1]⟩
    have hcut : readToken l p c (token ++ pre) = .token x l' pre :=
      readToken_cut hr (by rw [htoken, List.cons_append])
    refine ⟨x.text.toList ++ pre, d, rest'', m, m', ?_, ?_, hd, ?_⟩
    · rw [happend, List.append_assoc]
    · rw [htoken, List.cons_append, scan_token hb hcut, hs]
      rfl
    · rw [Position.through_append, hx.through]
      exact hfault

/-- The token at a place that stops a scan, and the fault that it makes. -/
inductive Culprit (l : Lexicon) (p : Position) : List Char → Fault → Prop
  /-- A character with which no token begins. -/
  | unknown {c : Char} {rest : List Char} (hb : isBlank c = false) (hl : isLetter c = false)
      (hd : c.isDigit = false) (hs : l.separates c = false) :
      Culprit l p (c :: rest) ⟨.unknownCharacter c, p⟩
  /-- A character that comes right after a numeral and does not separate. -/
  | intruder {numeral rest : List Char} {c : Char} (hn : IsLongestNumeral numeral (c :: rest))
      (hv : (spelled? (String.ofList numeral)).isSome) (hb : isBlank c = false)
      (hs : l.separates c = false) :
      Culprit l p (numeral ++ c :: rest)
        ⟨.unknownCharacter c, ⟨p.line, p.column + numeral.length⟩⟩
  /-- A numeral without value. -/
  | invalid {numeral rest : List Char} (hn : IsLongestNumeral numeral rest)
      (hv : spelled? (String.ofList numeral) = none) :
      Culprit l p (numeral ++ rest)
        ⟨.invalidNumber (String.ofList numeral), ⟨p.line, p.column + numeral.length⟩⟩

theorem Culprit.of_separates (hs : l'.separates = l.separates) (h : Culprit l' p text f) :
    Culprit l p text f := by
  cases h with
  | unknown hb hl hd hc => exact .unknown hb hl hd (hs ▸ hc)
  | intruder hn hv hb hc => exact .intruder hn hv hb (hs ▸ hc)
  | invalid hn hv => exact .invalid hn hv

theorem culprit_of_readToken (hb : isBlank c = false) (h : readToken l p c rest = .fault f l') :
    Culprit l p (c :: rest) f := by
  cases readToken_cases h with
  | @invalid n after hc hd hn hv =>
    obtain ⟨hproper, hlongest, happend⟩ := longest_of_read hd hn
    rw [← happend]
    exact .invalid hlongest ((spelled?_ofList hproper).trans hv)
  | @intruded n after literal d hc hd hn hv hi =>
    obtain ⟨hproper, hlongest, happend⟩ := longest_of_read hd hn
    obtain ⟨post, rfl, hbd, hs⟩ := intruder?_eq_some_iff.mp hi
    have hvalue : (spelled? (String.ofList n.text)).isSome := by
      rw [spelled?_ofList hproper, hv]
      rfl
    rw [(grows_register l literal).toSameTerminals.separates] at hs
    rw [← happend]
    exact .intruder hlongest hvalue hbd hs
  | unknown hc hd hf =>
    refine .unknown hb hc hd ?_
    rw [Lexicon.separates, hf]
    rfl

/-- The character in a column of a line, both counted from one. -/
def charAt? (text : List Char) (p : Position) : Option Char :=
  (text.splitOn '\n')[p.line - 1]?.bind fun row => row[p.column - 1]?

/-- A piece of a line ends before a column of it. -/
def EndsBefore (text piece : List Char) (p : Position) : Prop :=
  ∃ line, (text.splitOn '\n')[p.line - 1]? = some line ∧ piece.length < p.column ∧
    p.column - 1 ≤ line.length ∧
    (line.take (p.column - 1)).drop (p.column - 1 - piece.length) = piece

/-- The place of a fault tells where in the text its character stands, or where its numeral ends. -/
structure Points (text : List Char) (f : Fault) : Prop where
  line : 1 ≤ f.place.line
  column : 1 ≤ f.place.column
  culprit : match f.cause with
    | .unknownCharacter c => charAt? text f.place = some c
    | .invalidNumber numeral => EndsBefore text numeral.toList f.place
    | .unterminatedComment | .unresolvedToken _ => False

theorem ne_newline (hb : isBlank c = false) : '\n' ∉ [c] := by
  rw [List.mem_singleton]
  rintro rfl
  exact absurd hb (by decide)

theorem charAt?_of_append (hb : isBlank c = false) (hp : Position.after pre = p)
    (rest : List Char) :
    1 ≤ p.line ∧ 1 ≤ p.column ∧ charAt? (pre ++ c :: rest) p = some c := by
  obtain ⟨hline, hcolumn, line, hget, -, hpiece⟩ :=
    Text.exists_line_of_append (ne_newline hb) hp rest
  refine ⟨hline, hcolumn, ?_⟩
  have hhead := congrArg List.head? hpiece
  rw [List.length_singleton, List.head?_take, if_neg Nat.one_ne_zero, List.head?_drop] at hhead
  rw [charAt?, show pre ++ c :: rest = pre ++ ([c] ++ rest) from rfl, hget]
  exact hhead

theorem IsNumeral.not_mem_newline (h : IsNumeral text) : '\n' ∉ text := by
  obtain ⟨n, hn, rfl⟩ := h
  intro hm
  exact absurd (hn.not_isBlank_of_mem hm) (by decide)

theorem points_of_culprit (h : Culprit l (.after pre) post f) : Points (pre ++ post) f := by
  cases h with
  | unknown hb =>
    obtain ⟨hline, hcolumn, hc⟩ := charAt?_of_append hb rfl _
    exact ⟨hline, hcolumn, hc⟩
  | @intruder numeral rest c hn _ hb =>
    have hplace : Position.after (pre ++ numeral) =
        ⟨(Position.after pre).line, (Position.after pre).column + numeral.length⟩ := by
      rw [Position.after_eq_through, Position.through_append, ← Position.after_eq_through,
        Position.through_of_not_mem hn.1.not_mem_newline]
    obtain ⟨hline, hcolumn, hc⟩ := charAt?_of_append hb hplace rest
    rw [List.append_assoc] at hc
    exact ⟨hline, hcolumn, hc⟩
  | @invalid numeral rest hn =>
    obtain ⟨hline, hcolumn, line, hget, hlength, hpiece⟩ :=
      Text.exists_line_of_append hn.1.not_mem_newline (rfl : Position.after pre = _) rest
    refine ⟨hline, Nat.le_add_right_of_le hcolumn, line, hget, ?_⟩
    dsimp only
    rw [String.toList_ofList]
    have hstart : (Position.after pre).column + numeral.length - 1 - numeral.length =
        (Position.after pre).column - 1 := by omega
    have hstop : (Position.after pre).column + numeral.length - 1 -
        ((Position.after pre).column - 1) = numeral.length := by omega
    refine ⟨by omega, by omega, ?_⟩
    rw [hstart, List.drop_take, hstop]
    exact hpiece

/-- A scan that fails points at what stopped it, and the text before that token is scanned to its
end, with just the lexemes that were left. -/
theorem culprit_of_scan (l : Lexicon) (text : List Char) (f : Fault)
    (h : (scan l .start text).fault = some f) :
    Points text f ∧ ∃ pre post, text = pre ++ post ∧ Culprit l (.after pre) post f ∧
      (scan l .start pre).fault = none ∧
      (scan l .start pre).lexemes = (scan l .start text).lexemes := by
  obtain ⟨pre, c, rest, l', l'', htext, hs, hb, hr⟩ := scan_cut h
  have hgrows := grows_scan l .start pre
  rw [hs] at hgrows
  have hculprit := (culprit_of_readToken hb hr).of_separates hgrows.toSameTerminals.separates
  rw [← Position.after_eq_through] at hculprit
  refine ⟨htext ▸ points_of_culprit hculprit, pre, c :: rest, htext, hculprit, ?_, ?_⟩
  · rw [hs]
  · rw [hs]

end Descent.Lexing
