import Descent.Lexicon
import Descent.Lexing.Fault
import Descent.Lexing.Numeral
import Descent.Text.Blank
import Descent.Text.Number

/-!
The scan of a text without comments into lexemes. A word is a letter and every word character
after it, a numeral is as long as can be, any other token is one character and a separator.
-/
namespace Descent.Lexing

open Text (Position isBlank isLetter isWordChar)

/-- One token read from the front of a text, or the fault that stops the scan. The lexicon is the
one after it. -/
inductive Reading where
  | token (x : Lexeme) (lexicon : Lexicon) (rest : List Char)
  | fault (f : Fault) (lexicon : Lexicon)

/-- A word that is not reserved is an identifier. -/
def readWord (lexicon : Lexicon) (place : Position) (text : List Char) : Reading :=
  let word := text.takeWhile isWordChar
  let rest := text.dropWhile isWordChar
  match lexicon.words.find? (String.ofList word) with
  | some i => .token (.spanning .word i word place) lexicon rest
  | none =>
    let (lexicon, i) := lexicon.registerIdentifier (String.ofList word)
    .token (.spanning .identifier i word place) lexicon rest

/-- The lexicon with a number registered, and its place there. -/
def register (lexicon : Lexicon) : Literal → Lexicon × Category × Nat
  | .integer value => let (l, i) := lexicon.registerInteger value; (l, .integer, i)
  | .real value => let (l, i) := lexicon.registerReal value; (l, .real, i)

/-- The character that may not follow a numeral: neither a blank nor a separator. -/
def intruder? (lexicon : Lexicon) : List Char → Option Char
  | [] => none
  | c :: _ => if isBlank c || lexicon.separates c then none else some c

/-- A numeral is registered before the character after it is looked at. A numeral without value is
reported at the character after it. -/
def readNumeral (lexicon : Lexicon) (place : Position) (text : List Char) : Reading :=
  let (numeral, rest) := Numeral.read text
  let next : Position := ⟨place.line, place.column + numeral.text.length⟩
  match numeral.literal? with
  | none => .fault ⟨.invalidNumber (String.ofList numeral.text), next⟩ lexicon
  | some literal =>
    let (lexicon, category, i) := register lexicon literal
    match intruder? lexicon rest with
    | some c => .fault ⟨.unknownCharacter c, next⟩ lexicon
    | none => .token (.spanning category i numeral.text place) lexicon rest

/-- The token that begins with `c`, which is no blank. -/
def readToken (lexicon : Lexicon) (place : Position) (c : Char) (rest : List Char) : Reading :=
  if isLetter c then readWord lexicon place (c :: rest)
  else if c.isDigit then readNumeral lexicon place (c :: rest)
  else
    match lexicon.separators.find? c.toString with
    | some i => .token (.spanning .separator i [c] place) lexicon rest
    | none => .fault ⟨.unknownCharacter c, place⟩ lexicon

theorem length_readWord_lt {lexicon lexicon' : Lexicon} {place : Position} {c : Char}
    {text rest : List Char} {x : Lexeme} (hc : isLetter c = true)
    (h : readWord lexicon place (c :: text) = .token x lexicon' rest) :
    rest.length < (c :: text).length := by
  have hw : isWordChar c = true := by simp [isWordChar, hc]
  have hd := (List.dropWhile_sublist (l := text) isWordChar).length_le
  unfold readWord at h
  simp only [List.dropWhile_cons, hw, if_true] at h
  split at h <;> · cases h; simp only [List.length_cons]; omega

theorem length_readNumeral_lt {lexicon lexicon' : Lexicon} {place : Position} {c : Char}
    {text rest : List Char} {x : Lexeme} (hc : c.isDigit = true)
    (h : readNumeral lexicon place (c :: text) = .token x lexicon' rest) :
    rest.length < (c :: text).length := by
  have hr := Numeral.length_read_lt hc text
  unfold readNumeral at h
  dsimp only at h
  split at h
  · cases h
  · split at h
    · cases h
    · cases h; exact hr

theorem length_readToken_lt {lexicon lexicon' : Lexicon} {place : Position} {c : Char}
    {text rest : List Char} {x : Lexeme}
    (h : readToken lexicon place c text = .token x lexicon' rest) :
    rest.length < (c :: text).length := by
  unfold readToken at h
  split at h
  · next hc => exact length_readWord_lt hc h
  · split at h
    · next hc => exact length_readNumeral_lt hc h
    · split at h <;> cases h
      simp

/-- What a scan yields: the lexemes up to the end or the fault, and the lexicon there. -/
structure Scan where
  lexemes : List Lexeme
  lexicon : Lexicon
  fault : Option Fault
  deriving DecidableEq, Repr

def Scan.cons (x : Lexeme) (s : Scan) : Scan := { s with lexemes := x :: s.lexemes }

/-- The scan of `text`, whose first character stands at `place`. -/
def scan (lexicon : Lexicon) (place : Position) (text : List Char) : Scan :=
  match text with
  | [] => ⟨[], lexicon, none⟩
  | c :: rest =>
    if isBlank c then scan lexicon (place.advance c) rest
    else
      match _h : readToken lexicon place c rest with
      | .fault f lexicon => ⟨[], lexicon, some f⟩
      | .token x lexicon rest' => (scan lexicon x.next rest').cons x
termination_by text.length
decreasing_by
  · simp
  · exact length_readToken_lt ‹_›

end Descent.Lexing
