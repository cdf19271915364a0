import Descent.Lexing.Tokenize
import Descent.Proofs.Lexicon.Growth

/-!
How a lexical analysis goes on. A scan passes over a blank, reads a token or stops at a fault; what
the reading of a token comes to is told here by its cases. A substitution goes from lexeme to lexeme
and from match to match.
-/
namespace Descent.Lexing

open Text (Position isBlank isLetter isWordChar)

variable {l l' : Lexicon} {p : Position} {c : Char} {rest rest' text : List Char} {x : Lexeme}
  {f : Fault} {r : Reading}

/-- What the reading of the token that begins with `c` comes to. -/
inductive Reads (l : Lexicon) (p : Position) (c : Char) (rest : List Char) : Reading → Prop
  | word {i : Nat} (hc : isLetter c)
      (hf : l.words.find? (String.ofList ((c :: rest).takeWhile isWordChar)) = some i) :
      Reads l p c rest (.token (.spanning .word i ((c :: rest).takeWhile isWordChar) p) l
        ((c :: rest).dropWhile isWordChar))
  | identifier {name : String} (hc : isLetter c)
      (hn : name = String.ofList ((c :: rest).takeWhile isWordChar))
      (hf : l.words.find? name = none) :
      Reads l p c rest (.token
        (.spanning .identifier (l.registerIdentifier name).2 ((c :: rest).takeWhile isWordChar) p)
        (l.registerIdentifier name).1 ((c :: rest).dropWhile isWordChar))
  | number {n : Numeral} {after : List Char} {literal : Literal} (hc : isLetter c = false)
      (hd : c.isDigit) (hn : Numeral.read (c :: rest) = (n, after))
      (hv : n.literal? = some literal) (hi : intruder? (register l literal).1 after = none) :
      Reads l p c rest (.token
        (.spanning (register l literal).2.1 (register l literal).2.2 n.text p)
        (register l literal).1 after)
  | invalid {n : Numeral} {after : List Char} (hc : isLetter c = false) (hd : c.isDigit)
      (hn : Numeral.read (c :: rest) = (n, after)) (hv : n.literal? = none) :
      Reads l p c rest (.fault
        ⟨.invalidNumber (String.ofList n.text), ⟨p.line, p.column + n.text.length⟩⟩ l)
  | intruded {n : Numeral} {after : List Char} {literal : Literal} {d : Char}
      (hc : isLetter c = false) (hd : c.isDigit) (hn : Numeral.read (c :: rest) = (n, after))
      (hv : n.literal? = some literal) (hi : intruder? (register l literal).1 after = some d) :
      Reads l p c rest (.fault
        ⟨.unknownCharacter d, ⟨p.line, p.column + n.text.length⟩⟩ (register l literal).1)
  | separator {i : Nat} (hc : isLetter c = false) (hd : c.isDigit = false)
      (hf : l.separators.find? c.toString = some i) :
      Reads l p c rest (.token (.spanning .separator i [c] p) l rest)
  | unknown (hc : isLetter c = false) (hd : c.isDigit = false)
      (hf : l.separators.find? c.toString = none) :
      Reads l p c rest (.fault ⟨.unknownCharacter c, p⟩ l)

theorem readToken_cases (h : readToken l p c rest = r) : Reads l p c rest r := by
  subst h
  unfold readToken
  split
  · rename_i hc
    unfold readWord
    dsimp only
    split
    · exact .word hc ‹_›
    · exact .identifier hc rfl ‹_›
  · rename_i hc
    have hc := Bool.eq_false_iff.mpr hc
    split
    · rename_i hd
      unfold readNumeral
      dsimp only
      split
      · exact .invalid hc hd rfl ‹_›
      · split
        · exact .intruded hc hd rfl ‹_› ‹_›
        · exact .number hc hd rfl ‹_› ‹_›
    · rename_i hd
      have hd := Bool.eq_false_iff.mpr hd
      split
      · exact .separator hc hd ‹_›
      · exact .unknown hc hd ‹_›

@[simp] theorem scan_nil : scan l p [] = ⟨[], l, none⟩ := by
  rw [scan]

theorem scan_blank (hb : isBlank c) : scan l p (c :: rest) = scan l (p.advance c) rest := by
  rw [scan, if_pos hb]

theorem scan_fault (hb : isBlank c = false) (h : readToken l p c rest = .fault f l') :
    scan l p (c :: rest) = ⟨[], l', some f⟩ := by
  rw [scan, if_neg (by simp [hb])]
  split <;> simp_all

theorem scan_token (hb : isBlank c = false) (h : readToken l p c rest = .token x l' rest') :
    scan l p (c :: rest) = (scan l' x.next rest').cons x := by
  rw [scan, if_neg (by simp [hb])]
  split <;> simp_all

section Substitution

variable {q : String} {qs : List String} {s : Splice} {xs new : List Lexeme}

theorem insert_eq_ok_iff {token : String} : insert l p token = .ok x ↔
    ∃ category i, l.terminal? token = some (category, i) ∧ x = .pinned category i token p := by
  unfold insert
  cases l.terminal? token with
  | none => simp
  | some a => simp [Prod.ext_iff, eq_comm]

theorem insert_eq_error_iff {token : String} : insert l p token = .error f ↔
    l.terminal? token = none ∧ f = ⟨.unresolvedToken token, p⟩ := by
  unfold insert
  cases l.terminal? token with
  | none => simp [eq_comm]
  | some a => simp

@[simp] theorem replaceAll_nil : replaceAll l q qs s [] = ⟨[], 0, none⟩ := by
  rw [replaceAll]

theorem replaceAll_failed (hm : x.text = q ∧ (xs.take qs.length).map Lexeme.text = qs)
    (ha : s.apply l (x :: xs.take qs.length) = .error f) :
    replaceAll l q qs s (x :: xs) = ⟨x :: xs, 0, some f⟩ := by
  rw [replaceAll, if_pos hm, ha]

theorem replaceAll_replaced (hm : x.text = q ∧ (xs.take qs.length).map Lexeme.text = qs)
    (ha : s.apply l (x :: xs.take qs.length) = .ok new) :
    replaceAll l q qs s (x :: xs) = (replaceAll l q qs s (xs.drop qs.length)).after new := by
  rw [replaceAll, if_pos hm, ha]

theorem replaceAll_kept (hm : ¬ (x.text = q ∧ (xs.take qs.length).map Lexeme.text = qs)) :
    replaceAll l q qs s (x :: xs) = (replaceAll l q qs s xs).cons x := by
  rw [replaceAll, if_neg hm]

/-- How substitutions go on a list: what they leave of it, and the fault if one stops them. -/
inductive Runs (l : Lexicon) :
    List Substitution → List Lexeme → List Lexeme → Option Fault → Prop
  | nil {xs : List Lexeme} : Runs l [] xs xs none
  | skipped {t : Substitution} {ts : List Substitution} {xs ys : List Lexeme} {o : Option Fault}
      (h : t.isIdentity ∨ t.pattern = []) (later : Runs l ts xs ys o) : Runs l (t :: ts) xs ys o
  | stopped {t : Substitution} {ts : List Substitution} {xs : List Lexeme} {q : String}
      {qs : List String} {r : Replaced} {f : Fault} (hi : ¬ t.isIdentity)
      (hp : t.pattern = q :: qs) (hr : replaceAll l q qs (.between (q :: qs) t.result) xs = r)
      (hf : r.fault = some f) : Runs l (t :: ts) xs r.lexemes (some f)
  | passed {t : Substitution} {ts : List Substitution} {xs ys : List Lexeme} {o : Option Fault}
      {q : String} {qs : List String} {r : Replaced} (hi : ¬ t.isIdentity)
      (hp : t.pattern = q :: qs) (hr : replaceAll l q qs (.between (q :: qs) t.result) xs = r)
      (hf : r.fault = none) (later : Runs l ts r.lexemes ys o) : Runs l (t :: ts) xs ys o

theorem runs_substitute (l : Lexicon) (rules : List Substitution) (xs : List Lexeme) :
    Runs l rules xs (substitute l rules xs).lexemes (substitute l rules xs).fault := by
  induction rules generalizing xs with
  | nil => exact .nil
  | cons t ts ih =>
    unfold substitute
    split
    · exact .skipped (Or.inl ‹_›) (ih xs)
    · rename_i hi
      split
      · exact .skipped (Or.inr ‹_›) (ih xs)
      · rename_i hp
        dsimp only
        split
        · exact .stopped hi hp rfl ‹_›
        · split <;> exact .passed hi hp rfl ‹_› (ih _)

variable {rules : List Substitution} {ys zs : List Lexeme} {o o' : Option Fault}

theorem Runs.unique (h : Runs l rules xs ys o) (h' : Runs l rules xs zs o') : ys = zs ∧ o = o' := by
  induction h generalizing zs o' with
  | nil =>
    cases h'
    exact ⟨rfl, rfl⟩
  | skipped hs _ ih =>
    cases h' with
    | skipped _ later => exact ih later
    | stopped hi hp | passed hi hp => simp_all
  | stopped hi hp hr hf =>
    cases h' with
    | skipped hs => simp_all
    | stopped _ hp' hr' hf' =>
      cases hp.symm.trans hp'
      cases hr.symm.trans hr'
      exact ⟨rfl, hf.symm.trans hf'⟩
    | passed _ hp' hr' hf' =>
      cases hp.symm.trans hp'
      cases hr.symm.trans hr'
      cases hf.symm.trans hf'
  | passed hi hp hr hf _ ih =>
    cases h' with
    | skipped hs => simp_all
    | stopped _ hp' hr' hf' =>
      cases hp.symm.trans hp'
      cases hr.symm.trans hr'
      cases hf.symm.trans hf'
    | passed _ hp' hr' _ later =>
      cases hp.symm.trans hp'
      cases hr.symm.trans hr'
      exact ih later

theorem runs_iff : Runs l rules xs ys o ↔
    (substitute l rules xs).lexemes = ys ∧ (substitute l rules xs).fault = o := by
  constructor
  · exact (runs_substitute l rules xs).unique
  · rintro ⟨rfl, rfl⟩
    exact runs_substitute l rules xs

end Substitution

/-- What a lexical analysis comes to: its lexemes, the lexicon and the fault. -/
inductive Lexes (rules : LexicalRules) (l : Lexicon) (source : String) :
    List Lexeme → Lexicon → Option Fault → Prop
  | unclosed {f : Fault}
      (hc : stripComments rules.comments (Text.unifyLines source.toList) = .error f) :
      Lexes rules l source [] l (some f)
  | stopped {stripped : List Char} {s : Scan} {f : Fault}
      (hc : stripComments rules.comments (Text.unifyLines source.toList) = .ok stripped)
      (hs : scan l .start stripped = s) (hf : s.fault = some f) :
      Lexes rules l source s.lexemes s.lexicon (some f)
  | scanned {stripped : List Char} {s : Scan}
      (hc : stripComments rules.comments (Text.unifyLines source.toList) = .ok stripped)
      (hs : scan l .start stripped = s) (hf : s.fault = none) :
      Lexes rules l source (substitute s.lexicon rules.substitutions s.lexemes).lexemes s.lexicon
        (substitute s.lexicon rules.substitutions s.lexemes).fault

theorem tokenize_cases (rules : LexicalRules) (l : Lexicon) (source : String) :
    Lexes rules l source (tokenize rules l source).lexemes (tokenize rules l source).lexicon
      (tokenize rules l source).fault := by
  unfold tokenize
  split
  · exact .unclosed ‹_›
  · dsimp only
    split
    · exact .stopped ‹_› rfl ‹_›
    · rename_i hs
      have h := Lexes.scanned ‹_› rfl hs
      split <;> simp_all

/-- After a scan that comes to its end only substitutions are left to do. -/
theorem tokenize_scanned {rules : LexicalRules} {source : String}
    (hc : stripComments rules.comments (Text.unifyLines source.toList) = .ok text)
    (hf : (scan l .start text).fault = none) :
    let r := substitute (scan l .start text).lexicon rules.substitutions (scan l .start text).lexemes
    (tokenize rules l source).lexemes = r.lexemes ∧
      (tokenize rules l source).lexicon = (scan l .start text).lexicon ∧
      (tokenize rules l source).fault = r.fault := by
  unfold tokenize
  rw [hc]
  dsimp only
  rw [hf]
  dsimp only
  split
  · rename_i hr
    exact ⟨rfl, rfl, hr.symm⟩
  · rename_i hr
    exact ⟨rfl, rfl, hr.symm⟩

theorem grows_register (l : Lexicon) (literal : Literal) : l.Grows (register l literal).1 := by
  cases literal with
  | integer value => exact l.grows_registerInteger value
  | real value => exact l.grows_registerReal value

theorem isNumber_register (l : Lexicon) (literal : Literal) :
    (register l literal).2.1.isNumber = true := by
  cases literal <;> rfl

/-- The lexicon after a reading. -/
def Reading.lexicon : Reading → Lexicon
  | .token _ l _ | .fault _ l => l

theorem grows_readToken (l : Lexicon) (p : Position) (c : Char) (rest : List Char) :
    l.Grows (readToken l p c rest).lexicon := by
  generalize h : readToken l p c rest = r
  cases readToken_cases h with
  | word | invalid | separator | unknown => exact .refl l
  | identifier => exact l.grows_registerIdentifier _
  | number | intruded => exact grows_register l _

theorem grows_scan (l : Lexicon) (p : Position) (text : List Char) :
    l.Grows (scan l p text).lexicon := by
  fun_induction scan l p text with
  | case1 => exact .refl _
  | case2 _ _ _ _ _ ih => exact ih
  | case3 l p c rest _ f l' h =>
    have hr := grows_readToken l p c rest
    rw [h] at hr
    exact hr
  | case4 l p c rest _ x l' rest' h ih =>
    have hr := grows_readToken l p c rest
    rw [h] at hr
    exact hr.trans ih

theorem grows_tokenize (rules : LexicalRules) (l : Lexicon) (source : String) :
    l.Grows (tokenize rules l source).lexicon := by
  have hc := tokenize_cases rules l source
  generalize (tokenize rules l source).lexemes = xs, (tokenize rules l source).lexicon = m,
    (tokenize rules l source).fault = o at hc ⊢
  cases hc with
  | unclosed => exact .refl l
  | stopped _ hs | scanned _ hs => exact hs ▸ grows_scan l .start _

end Descent.Lexing
