import Descent.Proofs.Lexing.Cursor
import Descent.Proofs.Lexing.ScanFaults

/-!
A whole scan with a cursor. It comes to what the scan of the text comes to, with every place cut to
32 bits, and to just that unless the text is too long. What stops it is told by the true place, from
which the one reported differs only by the cut.
-/
namespace Descent.Lexing

open Text (Place Position isBlank isLetter isWordChar)

variable {l l' : Lexicon} {p : Position} {c : Char} {text t u : List Char} {x : Lexeme} {f : Fault}

namespace Cursor

variable {s : Cursor}

/-- The cursor stands at a place, as far as 32 bits tell, with a text ahead. -/
structure Stands (s : Cursor) (p : Position) (text : List Char) : Prop where
  ahead : s.ahead = text
  here : s.here = p.narrow

theorem stands_ofText (text : List Char) : Stands (ofText text) .start text :=
  ⟨ahead_ofText text, rfl⟩

theorem Stands.past (h : Stands s p (t ++ u)) : Stands (s.past t) (p.through t) u :=
  ⟨ahead_past h.ahead, here_past h.ahead h.here⟩

/-- A lexeme is placed by what the cursor has gone past. -/
theorem Stands.endingAt (h : Stands s p (t ++ u)) (hne : t ≠ []) (hline : '\n' ∉ t)
    (category : Category) (i : Nat) : Lexeme.endingAt category i t (s.past t).anchor =
      (Lexeme.spanning category i t p).narrowed := by
  rw [anchor_past h.ahead h.here hne hline, Lexeme.narrowed, toList_spanning]
  rfl

/-- What the cursor makes of a token agrees with the reading of it. -/
inductive Agrees : Taken → Reading → Prop
  | token {s : Cursor} {l : Lexicon} {x : Lexeme} {rest : List Char} (h : Stands s x.next rest) :
      Agrees ⟨s, l, .ok x.narrowed⟩ (.token x l rest)
  | fault {s : Cursor} {l : Lexicon} {f : Fault} :
      Agrees ⟨s, l, .error f.narrowed⟩ (.fault f l)

theorem agrees_token {category : Category} {i : Nat} (h : Stands s p (t ++ u)) (hne : t ≠ [])
    (hv : ∀ c ∈ t, isBlank c = false) :
    Agrees ⟨s.past t, l, .ok (.endingAt category i t (s.past t).anchor)⟩
      (.token (.spanning category i t p) l u) := by
  have hx : StandsAt (.spanning category i t p) p := standsAt_spanning hne hv
  have hline : '\n' ∉ t := fun hm => absurd (hv _ hm) (by decide)
  have hnext := hx.through
  rw [toList_spanning] at hnext
  rw [h.endingAt hne hline]
  exact .token (hnext ▸ h.past)

theorem agrees_fault (h : Stands s p text) (cause : Fault.Cause) :
    Agrees ⟨s, l, .error (s.fault cause)⟩ (.fault ⟨cause, p⟩ l) := by
  have hf : s.fault cause = Fault.narrowed ⟨cause, p⟩ := by rw [fault, h.here]; rfl
  rw [hf]
  exact .fault

/-- The cursor does with a token what the reading of it does. -/
theorem agrees_readToken (h : Stands s p (c :: t)) (hb : isBlank c = false) :
    Agrees (s.readToken l c) (Lexing.readToken l p c t) := by
  generalize hr : Lexing.readToken l p c t = r
  have hspan : Stands s p ((c :: t).takeWhile isWordChar ++ (c :: t).dropWhile isWordChar) := by
    rw [List.takeWhile_append_dropWhile]
    exact h
  cases readToken_cases hr with
  | word hc hf =>
    have hword := isWholeWord_takeWhile hc t
    rw [readToken, if_pos hc, readWord, takeWhile_eq, h.ahead, List.nil_append]
    dsimp only
    rw [hf]
    exact agrees_token hspan hword.ne_nil hword.visible
  | identifier hc hn hf =>
    subst hn
    have hword := isWholeWord_takeWhile hc t
    rw [readToken, if_pos hc, readWord, takeWhile_eq, h.ahead, List.nil_append]
    dsimp only
    rw [hf]
    exact agrees_token hspan hword.ne_nil hword.visible
  | number hc hd hn hv hi =>
    obtain ⟨hproper, -, happend⟩ := longest_of_read hd hn
    rw [readToken, if_neg (by simp [hc]), if_pos hd,
      readNumeral_of_ended h.ahead hd (h.ahead ▸ hn) hv hi]
    exact agrees_token (happend ▸ h) hproper.text_ne_nil fun d hm => hproper.not_isBlank_of_mem hm
  | invalid hc hd hn hv =>
    obtain ⟨hproper, hlongest, happend⟩ := longest_of_read hd hn
    have hpast := (happend ▸ h : Stands s p (_ ++ _)).past
    rw [Position.through_of_not_mem hlongest.1.not_mem_newline] at hpast
    rw [readToken, if_neg (by simp [hc]), if_pos hd,
      readNumeral_of_valueless h.ahead hd (h.ahead ▸ hn) hv]
    exact agrees_fault hpast _
  | intruded hc hd hn hv hi =>
    obtain ⟨hproper, hlongest, happend⟩ := longest_of_read hd hn
    have hpast := (happend ▸ h : Stands s p (_ ++ _)).past
    rw [Position.through_of_not_mem hlongest.1.not_mem_newline] at hpast
    rw [readToken, if_neg (by simp [hc]), if_pos hd,
      readNumeral_of_intruder h.ahead hd (h.ahead ▸ hn) hv hi]
    exact agrees_fault hpast _
  | separator hc hd hf =>
    rw [readToken, if_neg (by simp [hc]), if_neg (by simp [hd]), hf]
    exact agrees_token (t := [c]) h (List.cons_ne_nil c []) (List.forall_mem_singleton.mpr hb)
  | unknown hc hd hf =>
    rw [readToken, if_neg (by simp [hc]), if_neg (by simp [hd]), hf]
    exact agrees_fault h _

theorem length_readToken_lt {s' : Cursor} (h : s.peek? = some c) (hb : isBlank c = false)
    (hr : s.readToken l c = ⟨s', l', .ok x⟩) : s'.ahead.length < s.ahead.length := by
  rw [peek?_eq] at h
  obtain ⟨t, ht⟩ := List.head?_eq_some_iff.mp h
  have hs : Stands s s.here.widen (c :: t) := ⟨ht, (Place.narrow_widen _).symm⟩
  have ha := agrees_readToken (l := l) hs hb
  generalize hreading : Lexing.readToken l s.here.widen c t = r at ha
  rw [hr] at ha
  cases ha with
  | token hs' =>
    rw [ht, hs'.ahead]
    exact Lexing.length_readToken_lt hreading

theorem length_skipBlanks_le (s : Cursor) : s.skipBlanks.ahead.length ≤ s.ahead.length := by
  rw [ahead_skipBlanks]
  exact (List.dropWhile_sublist _).length_le

theorem not_isBlank_of_peek? (h : s.skipBlanks.peek? = some c) : isBlank c = false := by
  have hnext := List.head?_dropWhile_not isBlank s.ahead
  rw [← ahead_skipBlanks, ← peek?_eq, h] at hnext
  simpa using hnext

/-- Reads one token after the other until there is none or a fault. -/
def scan (lexicon : Lexicon) (s : Cursor) : Scan :=
  match _h : s.skipBlanks.peek? with
  | none => ⟨[], lexicon, none⟩
  | some c =>
    match _hr : s.skipBlanks.readToken lexicon c with
    | ⟨_, lexicon, .error f⟩ => ⟨[], lexicon, some f⟩
    | ⟨after, lexicon, .ok x⟩ => (scan lexicon after).cons x
termination_by s.ahead.length
decreasing_by
  have hlt := length_readToken_lt _h (not_isBlank_of_peek? _h) _hr
  exact Nat.lt_of_lt_of_le hlt (length_skipBlanks_le _)

theorem skipBlanks_nil (h : s.ahead = []) : s.skipBlanks = s := by
  rw [skipBlanks, takeWhile_eq, h]
  rfl

theorem skipBlanks_token (h : s.ahead = c :: t) (hb : isBlank c = false) : s.skipBlanks = s := by
  rw [skipBlanks, takeWhile_eq, h, List.takeWhile_cons_of_neg (by simp [hb])]
  rfl

theorem skipBlanks_blank (h : s.ahead = c :: t) (hb : isBlank c = true) :
    s.skipBlanks = s.bump.skipBlanks := by
  rw [skipBlanks, skipBlanks, takeWhile_eq, takeWhile_eq, ahead_bump h, h,
    List.takeWhile_cons_of_pos hb]
  rfl

theorem scan_end (h : s.ahead = []) : s.scan l = ⟨[], l, none⟩ := by
  have hpeek : s.skipBlanks.peek? = none := by rw [skipBlanks_nil h, peek?_eq, h]; rfl
  rw [scan]
  split
  · rfl
  · rename_i c hc
    cases hc.symm.trans hpeek

theorem scan_blank (h : s.ahead = c :: t) (hb : isBlank c = true) :
    s.scan l = s.bump.scan l := by
  rw [scan, skipBlanks_blank h hb, ← scan]

theorem scan_step (h : s.ahead = c :: t) (hb : isBlank c = false) : s.scan l =
    match s.readToken l c with
    | ⟨_, l, .error f⟩ => ⟨[], l, some f⟩
    | ⟨s, l, .ok x⟩ => (s.scan l).cons x := by
  have hpeek : s.peek? = some c := by rw [peek?_eq, h]; rfl
  rw [scan, skipBlanks_token h hb]
  split
  · rename_i hn
    cases hn.symm.trans hpeek
  · rename_i d hd
    obtain rfl := Option.some.inj (hd.symm.trans hpeek)
    split <;> rename_i hr <;> rw [hr]

/-- The scan with a cursor comes to what the scan of the text ahead comes to. -/
theorem scan_eq (h : Stands s p text) : s.scan l = (Lexing.scan l p text).narrowed := by
  fun_induction Lexing.scan l p text generalizing s with
  | case1 l p => exact scan_end h.ahead
  | case2 l p c rest hb ih =>
    have hbump : Stands s.bump (p.advance c) rest := h.past (t := [c])
    rw [scan_blank h.ahead hb]
    exact ih hbump
  | case3 l p c rest hb f l' hr =>
    have hb : isBlank c = false := by simpa using hb
    have ha := agrees_readToken (l := l) h hb
    rw [scan_step h.ahead hb]
    generalize s.readToken l c = taken at ha ⊢
    rw [hr] at ha
    cases ha
    rfl
  | case4 l p c rest hb x l' rest' hr ih =>
    have hb : isBlank c = false := by simpa using hb
    have ha := agrees_readToken (l := l) h hb
    rw [scan_step h.ahead hb]
    generalize s.readToken l c = taken at ha ⊢
    rw [hr] at ha
    cases ha with
    | token hs =>
      dsimp only
      rw [ih hs]
      rfl

end Cursor

/-- A lexeme that ends before the last column of 32 bits is placed where it stands. -/
theorem narrowed_of_standsAt (hx : StandsAt x p) (hl : p.line < UInt32.size)
    (hc : p.column + x.text.toList.length < UInt32.size) : x.narrowed = x := by
  obtain ⟨category, i, text, line, first, last⟩ := x
  have hplace := hx.first
  have hlast := hx.last
  have hpos : 0 < text.toList.length := List.length_pos_iff.mpr hx.ne_nil
  dsimp only [Lexeme.first] at hplace hlast hc hpos
  subst hplace
  dsimp only at hl hc hlast
  have hline : (UInt32.ofNat line).toNat = line := UInt32.toNat_ofNat_of_lt' hl
  have hcolumn : (UInt32.ofNat last).toNat = last := UInt32.toNat_ofNat_of_lt' (by omega)
  have hnext : (UInt32.ofNat last + 1).toNat = last + 1 := by
    rw [← UInt32.ofNat_one, ← UInt32.ofNat_add]
    exact UInt32.toNat_ofNat_of_lt' (by omega)
  have hlength : (UInt32.ofNat text.toList.length).toNat = text.toList.length :=
    UInt32.toNat_ofNat_of_lt' (by omega)
  have hfirst : last + 1 - text.toList.length = first := by omega
  simp only [Lexeme.narrowed, Lexeme.endingAt, Lexeme.last, Position.narrow, String.ofList_toList,
    hline, hcolumn, hnext, hlength, hfirst]

theorem Culprit.place_le (h : Culprit l p text f) :
    f.place.line = p.line ∧ f.place.column ≤ p.column + text.length := by
  cases h with
  | unknown => exact ⟨rfl, Nat.le_add_right _ _⟩
  | intruder =>
    rw [List.length_append]
    dsimp only
    omega
  | invalid =>
    rw [List.length_append]
    dsimp only
    omega

/-- Nothing wraps around in a text that is not too long. -/
theorem narrowed_scan (hl : p.line + text.length < UInt32.size)
    (hc : p.column + text.length < UInt32.size) :
    (scan l p text).narrowed = scan l p text := by
  fun_induction scan l p text with
  | case1 => rfl
  | case2 l p c rest hb ih =>
    rw [List.length_cons] at hl hc
    refine ih ?_ ?_ <;> rw [Position.advance] <;> split <;> dsimp only <;> omega
  | case3 l p c rest hb f l' hr =>
    obtain ⟨hline, hcolumn⟩ := (culprit_of_readToken (by simpa using hb) hr).place_le
    have hf : f.narrowed = f := narrowed_of_lt (by omega) (by omega)
    rw [Scan.narrowed, Option.map_some, hf]
    rfl
  | case4 l p c rest hb x l' rest' hr ih =>
    have hx := standsAt_of_readToken (by simpa using hb) hr
    have hlength := congrArg List.length (append_of_readToken hr)
    rw [List.length_append] at hlength
    have hnext : x.next = ⟨p.line, p.column + x.text.toList.length⟩ := by
      rw [← hx.through, Position.through_of_not_mem hx.not_mem_newline]
    have hrest : (scan l' x.next rest').narrowed = scan l' x.next rest' := by
      rw [hnext] at ih ⊢
      refine ih ?_ ?_ <;> dsimp only <;> omega
    have hsame : x.narrowed = x := narrowed_of_standsAt hx (by omega) (by omega)
    have hcons : ((scan l' x.next rest').cons x).narrowed =
      (scan l' x.next rest').narrowed.cons x.narrowed := rfl
    rw [hcons, hrest, hsame]

/-- Lengths, the second of them with a unit that may not follow the number. -/
def lengths : Lexicon := .seeded ["let"] ["=", ";"]

def unitless : List Char := "let a = 1;\nb 2.5m ;".toList

end Descent.Lexing
