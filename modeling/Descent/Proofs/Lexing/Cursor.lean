import Descent.Proofs.Lexing.NumeralScan
import Descent.Proofs.Lexing.Place
import Descent.Proofs.Lexing.ScanFaults

/-!
The scan with a cursor. The characters stand in an array, and the cursor goes over them one by one;
it keeps its place, and that of the character before it, in numbers of 32 bits. A lexeme is placed
by its last character. What is scanned so is what the scan of the text comes to, cut to 32 bits.
-/
namespace Descent

open Text (Place Position)

/-- The lexeme whose last character stands at `last`. Its first column is counted back from there,
to zero if it would come before that. -/
def Lexeme.endingAt (category : Category) (symbol : Nat) (text : List Char) (last : Place) :
    Lexeme :=
  ⟨category, symbol, String.ofList text, last.line.toNat,
    (last.column + 1).toNat - (UInt32.ofNat text.length).toNat, last.column.toNat⟩

/-- The lexeme as it is placed by the place of its last character in 32 bits. -/
def Lexeme.narrowed (x : Lexeme) : Lexeme :=
  .endingAt x.category x.symbol x.text.toList x.last.narrow

namespace Lexing

open Text (isBlank isLetter isWordChar)

def Scan.narrowed (s : Scan) : Scan :=
  ⟨s.lexemes.map Lexeme.narrowed, s.lexicon, s.fault.map Fault.narrowed⟩

/-- The integer that a run of digits stands for, if it is not too large. -/
def parseInteger? (text : List Char) : Option Nat :=
  if text ≠ [] ∧ text.all Char.isDigit ∧ digitsValue text < integerBound then
    some (digitsValue text)
  else none

/-- The double nearest to what a text that begins with a digit stands for. A text that is no numeral
as a whole, or has no digits in its exponent, stands for none. -/
def parseReal? (text : List Char) : Option Binary64 :=
  match Numeral.read text with
  | (n, []) =>
    if n.exponent.any (·.digits.isEmpty) then none
    else some (.ofScientific (digitsValue (n.whole ++ n.places))
      (n.exponent.elim 0 Exponent.value - n.places.length))
  | (_, _ :: _) => none

structure Cursor where
  chars : Array Char
  index : Nat
  /-- The place of the character under the cursor. -/
  here : Place
  /-- The place of the last character that the cursor has gone past. -/
  anchor : Place

/-- What comes of one token: where the cursor stands then, the lexicon, and the lexeme if there is
no fault. -/
structure Taken where
  cursor : Cursor
  lexicon : Lexicon
  result : Except Fault Lexeme

variable {l l' : Lexicon} {p : Position} {c : Char} {text t u taken : List Char}
  {P : Char → Bool} {x : Lexeme} {f : Fault}

namespace Cursor

def ofText (text : List Char) : Cursor := ⟨text.toArray, 0, .start, .start⟩

def peek? (s : Cursor) : Option Char := s.chars[s.index]?

/-- Goes past one character. -/
def bump (s : Cursor) : Cursor :=
  match s.peek? with
  | none => s
  | some c => { s with index := s.index + 1, here := s.here.advance c, anchor := s.here }

theorem remaining_bump {s : Cursor} (h : s.peek? = some c) :
    s.bump.chars.size - s.bump.index < s.chars.size - s.index := by
  obtain ⟨hlt, -⟩ := Array.getElem?_eq_some_iff.mp h
  have hb : s.bump = { s with index := s.index + 1, here := s.here.advance c, anchor := s.here } := by
    rw [bump, h]
  rw [hb]
  dsimp only
  omega

/-- Goes past all characters of a kind, and adds them to those that have been taken. -/
def takeWhile (P : Char → Bool) (s : Cursor) (taken : List Char) : Cursor × List Char :=
  match _h : s.peek? with
  | none => (s, taken)
  | some c => if P c then takeWhile P s.bump (taken ++ [c]) else (s, taken)
termination_by s.chars.size - s.index
decreasing_by exact remaining_bump _h

/-- Goes past one character if it is of a kind. -/
def takeIf? (P : Char → Bool) (s : Cursor) (taken : List Char) : Option (Cursor × List Char) :=
  match s.peek? with
  | none => none
  | some c => if P c then some (s.bump, taken ++ [c]) else none

def skipBlanks (s : Cursor) : Cursor := (s.takeWhile isBlank []).1

def fault (s : Cursor) (cause : Fault.Cause) : Fault := ⟨cause, s.here.widen⟩

def takeFraction (s : Cursor) (taken : List Char) : Cursor × List Char :=
  match s.takeIf? (· = '.') taken with
  | none => (s, taken)
  | some (s, taken) => s.takeWhile Char.isDigit taken

def takeSign (s : Cursor) (taken : List Char) : Cursor × List Char :=
  (s.takeIf? (fun c => c = '+' ∨ c = '-') taken).getD (s, taken)

def takeExponent (s : Cursor) (taken : List Char) : Cursor × List Char :=
  match s.takeIf? (fun c => c = 'e' ∨ c = 'E') taken with
  | none => (s, taken)
  | some (s, taken) =>
    let (s, taken) := s.takeSign taken
    s.takeWhile Char.isDigit taken

/-- Goes past a numeral. Whether it is an integer depends on the character after its digits. -/
def takeNumeral (s : Cursor) : Cursor × List Char × Option Literal :=
  let (s, text) := s.takeWhile Char.isDigit []
  if s.peek?.any fun c => c = '.' ∨ c = 'e' ∨ c = 'E' then
    let (s, text) := s.takeFraction text
    let (s, text) := s.takeExponent text
    (s, text, (parseReal? text).map .real)
  else (s, text, (parseInteger? text).map .integer)

def readNumeral (lexicon : Lexicon) (s : Cursor) : Taken :=
  match s.takeNumeral with
  | (s, text, none) => ⟨s, lexicon, .error (s.fault (.invalidNumber (String.ofList text)))⟩
  | (s, text, some literal) =>
    let (lexicon, category, i) := register lexicon literal
    match s.peek?.filter fun c => !(isBlank c || lexicon.separates c) with
    | none => ⟨s, lexicon, .ok (.endingAt category i text s.anchor)⟩
    | some c => ⟨s, lexicon, .error (s.fault (.unknownCharacter c))⟩

def readWord (lexicon : Lexicon) (s : Cursor) : Taken :=
  let (s, word) := s.takeWhile isWordChar []
  match lexicon.words.find? (String.ofList word) with
  | some i => ⟨s, lexicon, .ok (.endingAt .word i word s.anchor)⟩
  | none =>
    let (lexicon, i) := lexicon.registerIdentifier (String.ofList word)
    ⟨s, lexicon, .ok (.endingAt .identifier i word s.anchor)⟩

/-- Reads the token that begins with `c`, the character under the cursor. -/
def readToken (lexicon : Lexicon) (c : Char) (s : Cursor) : Taken :=
  if isLetter c then s.readWord lexicon
  else if c.isDigit then s.readNumeral lexicon
  else
    match lexicon.separators.find? c.toString with
    | some i => ⟨s.bump, lexicon, .ok (.endingAt .separator i [c] s.bump.anchor)⟩
    | none => ⟨s, lexicon, .error (s.fault (.unknownCharacter c))⟩

/-- The characters that the cursor has not gone past. -/
def ahead (s : Cursor) : List Char := s.chars.toList.drop s.index

/-- The cursor after as many characters as a text has. -/
def past (s : Cursor) : List Char → Cursor
  | [] => s
  | _ :: t => s.bump.past t

variable {s : Cursor}

theorem ahead_ofText (text : List Char) : (ofText text).ahead = text := by
  simp [ahead, ofText]

theorem peek?_eq (s : Cursor) : s.peek? = s.ahead.head? := by
  rw [peek?, ahead, List.head?_drop, Array.getElem?_toList]

theorem bump_of_ahead (h : s.ahead = c :: t) :
    s.bump = { s with index := s.index + 1, here := s.here.advance c, anchor := s.here } := by
  rw [bump, peek?_eq, h]
  rfl

theorem ahead_bump (h : s.ahead = c :: t) : s.bump.ahead = t := by
  have htail := congrArg List.tail h
  rw [ahead, List.tail_drop] at htail
  rw [bump_of_ahead h]
  exact htail

theorem past_append (s : Cursor) (t u : List Char) : s.past (t ++ u) = (s.past t).past u := by
  induction t generalizing s with
  | nil => rfl
  | cons c t ih => exact ih s.bump

theorem ahead_past (h : s.ahead = t ++ u) : (s.past t).ahead = u := by
  induction t generalizing s with
  | nil => exact h
  | cons c t ih => exact ih (ahead_bump h)

theorem index_past (h : s.ahead = t ++ u) : (s.past t).index = s.index + t.length := by
  induction t generalizing s with
  | nil => rfl
  | cons c t ih =>
    have hb := congrArg Cursor.index (bump_of_ahead h)
    have hi := ih (ahead_bump h)
    rw [past, hi, List.length_cons]
    dsimp only at hb
    omega

theorem chars_past (s : Cursor) (t : List Char) : (s.past t).chars = s.chars := by
  induction t generalizing s with
  | nil => rfl
  | cons c t ih =>
    have hb : s.bump.chars = s.chars := by
      unfold bump
      split <;> rfl
    exact (ih s.bump).trans hb

theorem here_past (h : s.ahead = t ++ u) (hp : s.here = p.narrow) :
    (s.past t).here = (p.through t).narrow := by
  induction t generalizing s p with
  | nil => exact hp
  | cons c t ih =>
    refine ih (ahead_bump h) ?_
    rw [bump_of_ahead h, Position.narrow_advance, ← hp]

/-- What the cursor has gone past on one line ends at the anchor. -/
theorem anchor_past (h : s.ahead = t ++ u) (hp : s.here = p.narrow) (hne : t ≠ [])
    (hline : '\n' ∉ t) : (s.past t).anchor = Position.narrow ⟨p.line, p.column + t.length - 1⟩ := by
  obtain ⟨t, c, rfl⟩ := (List.eq_nil_or_concat' t).resolve_left hne
  have ht : '\n' ∉ t := fun hm => hline (List.mem_append_left _ hm)
  have hsplit : s.ahead = t ++ (c :: u) := by rw [h, List.append_assoc, List.singleton_append]
  have hlast : (s.past (t ++ [c])).anchor = (s.past t).here := by
    rw [past_append]
    exact congrArg Cursor.anchor (bump_of_ahead (ahead_past hsplit))
  rw [hlast, here_past hsplit hp, Position.through_of_not_mem ht, List.length_append,
    List.length_singleton]
  rfl

theorem takeWhile_eq (P : Char → Bool) (s : Cursor) (taken : List Char) :
    s.takeWhile P taken = (s.past (s.ahead.takeWhile P), taken ++ s.ahead.takeWhile P) := by
  generalize hr : s.ahead = r
  induction r generalizing s taken with
  | nil =>
    have hpeek : s.peek? = none := by rw [peek?_eq, hr]; rfl
    rw [takeWhile]
    split
    · simp [past]
    · rename_i c hc
      cases hc.symm.trans hpeek
  | cons c t ih =>
    have hpeek : s.peek? = some c := by rw [peek?_eq, hr]; rfl
    rw [takeWhile]
    split
    · rename_i hn
      cases hn.symm.trans hpeek
    · rename_i d hd
      obtain rfl := Option.some.inj (hd.symm.trans hpeek)
      by_cases hP : P d = true
      · rw [if_pos hP, ih s.bump (taken ++ [d]) (ahead_bump hr), List.takeWhile_cons_of_pos hP,
          List.append_assoc, List.singleton_append]
        rfl
      · rw [if_neg hP, List.takeWhile_cons_of_neg hP, List.append_nil]
        rfl

theorem takeIf?_nil (h : s.ahead = []) : s.takeIf? P taken = none := by
  rw [takeIf?, peek?_eq, h]
  rfl

theorem takeIf?_cons (h : s.ahead = c :: t) :
    s.takeIf? P taken = if P c then some (s.past [c], taken ++ [c]) else none := by
  rw [takeIf?, peek?_eq, h]
  rfl

theorem ahead_skipBlanks (s : Cursor) : s.skipBlanks.ahead = s.ahead.dropWhile isBlank := by
  rw [skipBlanks, takeWhile_eq]
  exact ahead_past (List.takeWhile_append_dropWhile).symm

theorem takeFraction_eq {fraction : Option (List Char)}
    (h : Numeral.readFraction s.ahead = (fraction, u)) (taken : List Char) :
    s.takeFraction taken = (s.past (fraction.elim [] ('.' :: ·)),
      taken ++ fraction.elim [] ('.' :: ·)) := by
  unfold takeFraction
  cases hr : s.ahead with
  | nil =>
    rw [hr] at h
    cases h
    rw [takeIf?_nil hr]
    simp [past]
  | cons c t =>
    rw [hr] at h
    rw [takeIf?_cons hr]
    by_cases hc : c = '.'
    · subst hc
      cases h
      simp only [decide_true, if_true, takeWhile_eq]
      rw [show (s.past ['.']).ahead = t from ahead_past (t := ['.']) hr, ← past_append,
        List.append_assoc]
      rfl
    · rw [Numeral.readFraction, if_neg hc] at h
      cases h
      simp [hc, past]

theorem takeSign_eq {sign : Option Char} (h : Exponent.readSign s.ahead = (sign, u))
    (taken : List Char) :
    s.takeSign taken = (s.past sign.toList, taken ++ sign.toList) := by
  unfold takeSign
  cases hr : s.ahead with
  | nil =>
    rw [hr] at h
    cases h
    rw [takeIf?_nil hr]
    simp [past]
  | cons c t =>
    rw [hr, Exponent.readSign] at h
    rw [takeIf?_cons hr]
    by_cases hc : c = '+' ∨ c = '-'
    · rw [if_pos hc] at h
      cases h
      simp [hc]
    · rw [if_neg hc] at h
      cases h
      simp [hc, past]

theorem takeExponent_eq {e : Option Exponent} (h : Exponent.read s.ahead = (e, u))
    (taken : List Char) :
    s.takeExponent taken = (s.past (e.elim [] Exponent.text),
      taken ++ e.elim [] Exponent.text) := by
  unfold takeExponent
  cases hr : s.ahead with
  | nil =>
    rw [hr] at h
    cases h
    rw [takeIf?_nil hr]
    simp [past]
  | cons c t =>
    rw [hr, Exponent.read] at h
    rw [takeIf?_cons hr]
    by_cases hc : c = 'e' ∨ c = 'E'
    · rw [if_pos hc] at h
      generalize hsign : Exponent.readSign t = r at h
      obtain ⟨sign, after⟩ := r
      cases h
      have hmarker : (s.past [c]).ahead = t := ahead_past (t := [c]) hr
      have happend := Exponent.readSign_append t
      rw [hsign] at happend
      have hafter : ((s.past [c]).past sign.toList).ahead = after :=
        ahead_past (hmarker.trans happend.symm)
      simp only [decide_eq_true hc, if_true, takeSign_eq (hmarker ▸ hsign), takeWhile_eq, hafter]
      simp [Exponent.text, past, past_append]
    · rw [if_neg hc] at h
      cases h
      simp [hc, past]

/-- The character after the digits tells whether there are other parts. -/
theorem any_head?_iff {fraction : Option (List Char)} {e : Option Exponent}
    (hf : Numeral.readFraction t = (fraction, taken)) (he : Exponent.read taken = (e, u)) :
    t.head?.any (fun c => c = '.' ∨ c = 'e' ∨ c = 'E') = true ↔
      ¬ (fraction = none ∧ e = none) := by
  cases t with
  | nil =>
    cases hf
    cases he
    simp
  | cons c t =>
    rw [Numeral.readFraction] at hf
    by_cases hc : c = '.'
    · rw [if_pos hc] at hf
      cases hf
      simp [hc]
    · rw [if_neg hc] at hf
      cases hf
      rw [Exponent.read] at he
      by_cases hm : c = 'e' ∨ c = 'E'
      · rw [if_pos hm] at he
        cases he
        simp [hm]
      · rw [if_neg hm] at he
        cases he
        simp [hc, hm]

theorem parseInteger?_whole {n : Numeral} (hn : n.Proper) (hf : n.fraction = none)
    (he : n.exponent = none) : (parseInteger? n.text).map .integer = n.literal? := by
  have hwhole := Numeral.text_of_whole hf he
  have hall : n.text.all Char.isDigit = true := by
    rw [hwhole]
    exact List.all_eq_true.mpr hn.whole
  rw [Numeral.literal?_of_whole hf he, decimalValue_ofList]
  by_cases hlt : digitsValue n.text < 2 ^ 63
  · rw [if_pos hlt, parseInteger?, if_pos ⟨hn.text_ne_nil, hall, hlt⟩]
    rfl
  · rw [if_neg hlt, parseInteger?, if_neg fun h => hlt h.2.2]
    rfl

theorem parseReal?_parts {n : Numeral} (hn : n.Proper)
    (h : ¬ (n.fraction = none ∧ n.exponent = none)) :
    (parseReal? n.text).map .real = n.literal? := by
  have hread := Numeral.read_text_append (u := []) hn nofun
  rw [List.append_nil] at hread
  rw [Numeral.literal?_of_parts h, parseReal?, hread]
  dsimp only
  split <;> rfl

/-- The parts of a numeral are read one after the other. -/
theorem parts_of_read {n : Numeral} (h : Numeral.read t = (n, u)) :
    ∃ rest, t.takeWhile Char.isDigit = n.whole ∧
      Numeral.readFraction (t.dropWhile Char.isDigit) = (n.fraction, rest) ∧
      Exponent.read rest = (n.exponent, u) := by
  cases h
  exact ⟨_, rfl, rfl, rfl⟩

theorem takeNumeral_eq {n : Numeral} (hs : s.ahead = c :: t) (hc : c.isDigit = true)
    (hn : Numeral.read s.ahead = (n, u)) :
    s.takeNumeral = (s.past n.text, n.text, n.literal?) := by
  obtain ⟨hproper, -, -⟩ := longest_of_read hc (hs ▸ hn)
  obtain ⟨rest, hw, hf, he⟩ := parts_of_read hn
  have hwhole : (s.past n.whole).ahead = s.ahead.dropWhile Char.isDigit :=
    hw ▸ ahead_past List.takeWhile_append_dropWhile.symm
  rw [takeNumeral, takeWhile_eq, List.nil_append, hw]
  dsimp only
  rw [peek?_eq, hwhole]
  by_cases hp : n.fraction = none ∧ n.exponent = none
  · obtain ⟨hnofraction, hnoexponent⟩ := hp
    have hany : ¬ _ := mt (any_head?_iff hf he).mp (not_not.mpr ⟨hnofraction, hnoexponent⟩)
    rw [if_neg hany, ← parseInteger?_whole hproper hnofraction hnoexponent,
      Numeral.text_of_whole hnofraction hnoexponent]
  · have hfraction := Numeral.readFraction_append (s.ahead.dropWhile Char.isDigit)
    rw [hf, ← hwhole] at hfraction
    have hrest : ((s.past n.whole).past (n.fraction.elim [] ('.' :: ·))).ahead = rest :=
      ahead_past hfraction.symm
    have htext : n.text = n.whole ++ n.fraction.elim [] ('.' :: ·) ++
      n.exponent.elim [] Exponent.text := rfl
    rw [if_pos ((any_head?_iff hf he).mpr hp), takeFraction_eq (hwhole ▸ hf)]
    dsimp only
    rw [takeExponent_eq (hrest ▸ he), ← parseReal?_parts hproper hp, htext, past_append,
      past_append]

/-- The character that may not follow a numeral. -/
theorem filter_peek? (l : Lexicon) (s : Cursor) :
    (s.peek?.filter fun c => !(isBlank c || l.separates c)) = intruder? l s.ahead := by
  rw [peek?_eq]
  cases s.ahead with
  | nil => rfl
  | cons c t =>
    rw [List.head?_cons, intruder?]
    cases hb : isBlank c <;> cases hs : l.separates c <;> simp [hb, hs]

variable {n : Numeral} {literal : Literal} {d : Char}

theorem readNumeral_of_valueless (hs : s.ahead = c :: t) (hc : c.isDigit = true)
    (hn : Numeral.read s.ahead = (n, u)) (hv : n.literal? = none) :
    s.readNumeral l = ⟨s.past n.text, l,
      .error ((s.past n.text).fault (.invalidNumber (String.ofList n.text)))⟩ := by
  rw [readNumeral, takeNumeral_eq hs hc hn, hv]

theorem readNumeral_of_intruder (hs : s.ahead = c :: t) (hc : c.isDigit = true)
    (hn : Numeral.read s.ahead = (n, u)) (hv : n.literal? = some literal)
    (hi : intruder? (register l literal).1 u = some d) :
    s.readNumeral l = ⟨s.past n.text, (register l literal).1,
      .error ((s.past n.text).fault (.unknownCharacter d))⟩ := by
  have happend := Numeral.text_read_append s.ahead
  rw [hn] at happend
  rw [readNumeral, takeNumeral_eq hs hc hn, hv]
  dsimp only
  rw [filter_peek?, ahead_past happend.symm, hi]

theorem readNumeral_of_ended (hs : s.ahead = c :: t) (hc : c.isDigit = true)
    (hn : Numeral.read s.ahead = (n, u)) (hv : n.literal? = some literal)
    (hi : intruder? (register l literal).1 u = none) :
    s.readNumeral l = ⟨s.past n.text, (register l literal).1,
      .ok (.endingAt (register l literal).2.1 (register l literal).2.2 n.text
        (s.past n.text).anchor)⟩ := by
  have happend := Numeral.text_read_append s.ahead
  rw [hn] at happend
  rw [readNumeral, takeNumeral_eq hs hc hn, hv]
  dsimp only
  rw [filter_peek?, ahead_past happend.symm, hi]

/-- The cursor after it has gone past `t` on its line, with `u` ahead. -/
structure GonePast (s : Cursor) (t u : List Char) (s' : Cursor) : Prop where
  chars : s'.chars = s.chars
  index : s'.index = s.index + t.length
  ahead : s'.ahead = u
  here : s'.here = ⟨s.here.line, s.here.column + UInt32.ofNat t.length⟩
  anchor : s'.anchor = ⟨s.here.line, s.here.column + UInt32.ofNat (t.length - 1)⟩

theorem gonePast_past (h : s.ahead = t ++ u) (hne : t ≠ []) (hline : '\n' ∉ t) :
    GonePast s t u (s.past t) := by
  have hp : s.here = s.here.widen.narrow := s.here.narrow_widen.symm
  have hlen : 0 < t.length := List.length_pos_iff.mpr hne
  have hlast : s.here.widen.column + t.length - 1 = s.here.widen.column + (t.length - 1) := by omega
  refine ⟨s.chars_past t, index_past h, ahead_past h, ?_, ?_⟩
  · rw [here_past h hp, Position.through_of_not_mem hline]
    simp [Position.narrow, Place.widen, UInt32.ofNat_add]
  · rw [anchor_past h hp hne hline, hlast]
    simp [Position.narrow, Place.widen, UInt32.ofNat_add]

end Cursor

/-- A lexeme with the text of a numeral that begins at `p`. It has just the columns of that text, if
32 bits suffice for them; if not, the columns are what is left of them in 32 bits. -/
structure IsNumeralLexeme (x : Lexeme) (t : List Char) (p : Place) (category : Category)
    (i : Nat) : Prop where
  category : x.category = category
  symbol : x.symbol = i
  text : x.text = String.ofList t
  line : x.line = p.line.toNat
  first : x.firstColumn =
    (p.column + UInt32.ofNat t.length).toNat - (UInt32.ofNat t.length).toNat
  last : x.lastColumn = (p.column + UInt32.ofNat (t.length - 1)).toNat
  spans : p.column.toNat + t.length < UInt32.size →
    x.firstColumn = p.column.toNat ∧ x.lastColumn + 1 = p.column.toNat + t.length

theorem toNat_add_ofNat {a : UInt32} {n : Nat} (h : a.toNat + n < UInt32.size) :
    (a + UInt32.ofNat n).toNat = a.toNat + n := by
  have hn : (UInt32.ofNat n).toNat = n := UInt32.toNat_ofNat_of_lt' (by omega)
  rw [UInt32.toNat_add, hn]
  exact Nat.mod_eq_of_lt h

theorem isNumeralLexeme_endingAt (hne : t ≠ []) (category : Category) (i : Nat) (p : Place) :
    IsNumeralLexeme (.endingAt category i t ⟨p.line, p.column + UInt32.ofNat (t.length - 1)⟩)
      t p category i := by
  have hlen : 0 < t.length := List.length_pos_iff.mpr hne
  have hnext : p.column + UInt32.ofNat (t.length - 1) + 1 = p.column + UInt32.ofNat t.length := by
    rw [UInt32.add_assoc, ← UInt32.ofNat_one, ← UInt32.ofNat_add, Nat.sub_add_cancel hlen]
  have hfirst : (Lexeme.endingAt category i t
      ⟨p.line, p.column + UInt32.ofNat (t.length - 1)⟩).firstColumn =
      (p.column + UInt32.ofNat t.length).toNat - (UInt32.ofNat t.length).toNat := by
    rw [← hnext]
    rfl
  refine ⟨rfl, rfl, rfl, rfl, hfirst, rfl, fun h => ⟨?_, ?_⟩⟩
  · have hlength : (UInt32.ofNat t.length).toNat = t.length := UInt32.toNat_ofNat_of_lt' (by omega)
    rw [hfirst, hlength, toNat_add_ofNat h]
    omega
  · change (p.column + UInt32.ofNat (t.length - 1)).toNat + 1 = _
    rw [toNat_add_ofNat (by omega)]
    omega

/-- The numeral `2.5E-2`. -/
def fortieth : Numeral := ⟨['2'], some ['5'], some ⟨'E', some '-', ['2']⟩⟩

theorem value_fortieth : fortieth.value = 1 / 40 := by
  have hwhole : decimalValue (String.ofList fortieth.whole) = 2 := by decide
  have hplaces : decimalValue (String.ofList fortieth.places) = 5 := by decide
  have hexponent : fortieth.exponent.elim 0 Exponent.value = -2 := rfl
  rw [Numeral.value, hwhole, hplaces, hexponent]
  norm_num [fortieth, Numeral.places]

end Lexing

end Descent
