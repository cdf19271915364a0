import Descent.Json.Basic

/-! Tokens of JSON text. -/
namespace Descent.Json

inductive Token where
  | openBrace
  | closeBrace
  | openBracket
  | closeBracket
  | comma
  | colon
  | string (text : Option String)
  /-- A number or one of the three literal names. -/
  | atom (value : Json)

/-- Blanks of JSON. -/
def isSpace (c : Char) : Bool := c = ' ' || c = '\t' || c = '\n' || c = '\r'

/-- What a string literal is made of: characters, and the two halves of surrogate pairs. -/
inductive Piece where
  | char (c : Char)
  | high (unit : Nat)
  | low (unit : Nat)
  deriving DecidableEq, Repr

/-- The piece that a code unit stands for. -/
def Piece.ofUnit (unit : Nat) : Piece :=
  if 0xD800 ≤ unit ∧ unit < 0xDC00 then .high unit
  else if 0xDC00 ≤ unit ∧ unit < 0xE000 then .low unit
  else .char (Char.ofNat unit)

/-- The text of a string literal. Halves of pairs have to meet. -/
def assemble : List Piece → Option (List Char)
  | [] => some []
  | .char c :: rest => (assemble rest).map (c :: ·)
  | .high h :: .low l :: rest =>
    (assemble rest).map (Char.ofNat (0x10000 + (h - 0xD800) * 0x400 + (l - 0xDC00)) :: ·)
  | _ => none

def hexValue? (c : Char) : Option Nat :=
  if '0' ≤ c ∧ c ≤ '9' then some (c.toNat - '0'.toNat)
  else if 'a' ≤ c ∧ c ≤ 'f' then some (c.toNat - 'a'.toNat + 10)
  else if 'A' ≤ c ∧ c ≤ 'F' then some (c.toNat - 'A'.toNat + 10)
  else none

/-- The code unit of four hexadecimal digits. -/
def unit? (a b c d : Char) : Option Nat := do
  let a ← hexValue? a
  let b ← hexValue? b
  let c ← hexValue? c
  let d ← hexValue? d
  return ((a * 16 + b) * 16 + c) * 16 + d

/-- The character that a letter after a backslash stands for. -/
def unescape? (c : Char) : Option Char :=
  if c = '\x22' ∨ c = '\\' ∨ c = '/' then some c
  else if c = 'b' then some '\x08'
  else if c = 'f' then some '\x0c'
  else if c = 'n' then some '\n'
  else if c = 'r' then some '\r'
  else if c = 't' then some '\t'
  else none

/-- The pieces of a string literal up to its closing quote, and the rest. Controls must not stand
in it as they are. -/
def readString : List Char → Option (List Piece × List Char)
  | [] => none
  | '\\' :: 'u' :: a :: b :: c :: d :: rest => do
    let unit ← unit? a b c d
    let (pieces, rest) ← readString rest
    return (.ofUnit unit :: pieces, rest)
  | '\\' :: c :: rest => do
    let c ← unescape? c
    let (pieces, rest) ← readString rest
    return (.char c :: pieces, rest)
  | c :: rest =>
    if c = '\x22' then some ([], rest)
    else if c.toNat < 0x20 then none
    else do
      let (pieces, rest) ← readString rest
      return (.char c :: pieces, rest)

/-- Characters that numbers are written with. -/
def isNumberChar (c : Char) : Bool :=
  c.isDigit || c = '-' || c = '+' || c = '.' || c = 'e' || c = 'E'

/-- An exponent, or nothing. -/
def isExponent : List Char → Bool
  | [] => true
  | c :: rest =>
    let digits := if rest.head? = some '-' ∨ rest.head? = some '+' then rest.drop 1 else rest
    (c = 'e' || c = 'E') && !digits.isEmpty && digits.all Char.isDigit

/-- A fraction, an exponent, both or nothing. -/
def isFraction : List Char → Bool
  | [] => true
  | c :: rest =>
    if c = '.' then
      !(rest.takeWhile Char.isDigit).isEmpty && isExponent (rest.dropWhile Char.isDigit)
    else isExponent (c :: rest)

/-- A number without leading zeros, with digits on both sides of a point and in an exponent. -/
def isNumber (text : List Char) : Bool :=
  let unsigned := if text.head? = some '-' then text.drop 1 else text
  let whole := unsigned.takeWhile Char.isDigit
  (whole = ['0'] || (!whole.isEmpty && whole.head? ≠ some '0')) &&
    isFraction (unsigned.dropWhile Char.isDigit)

/-- A given text at the front of another. -/
def expect? (expected text : List Char) : Option (List Char) :=
  if expected.isPrefixOf text then some (text.drop expected.length) else none

/-- The tokens of one character. -/
def punctuation? (c : Char) : Option Token :=
  if c = '{' then some .openBrace
  else if c = '}' then some .closeBrace
  else if c = '[' then some .openBracket
  else if c = ']' then some .closeBracket
  else if c = ',' then some .comma
  else if c = ':' then some .colon
  else none

/-- The value of a literal name by its first letter, and its other letters. -/
def literal? (c : Char) : Option (List Char × Json) :=
  if c = 'n' then some (['u', 'l', 'l'], .null)
  else if c = 't' then some (['r', 'u', 'e'], .bool true)
  else if c = 'f' then some (['a', 'l', 's', 'e'], .bool false)
  else none

/-- The token that begins with `c`, and the rest. -/
def readToken (c : Char) (rest : List Char) : Option (Token × List Char) :=
  match punctuation? c with
  | some t => some (t, rest)
  | none =>
    if c = '\x22' then
      (readString rest).map fun (pieces, rest) =>
        (.string ((assemble pieces).map String.ofList), rest)
    else
      match literal? c with
      | some (letters, value) => (expect? letters rest).map (.atom value, ·)
      | none =>
        let digits := c :: rest.takeWhile isNumberChar
        if isNumber digits then
          some (.atom (.number (String.ofList digits)), rest.dropWhile isNumberChar)
        else none

theorem length_readString_lt {text rest : List Char} {pieces : List Piece}
    (h : readString text = some (pieces, rest)) : rest.length < text.length := by
  fun_induction readString text generalizing pieces rest with
  | case1 => simp at h
  | case2 a b c d text ih =>
    simp only [Option.bind_eq_bind, Option.pure_def, Option.bind_eq_some_iff, Prod.exists] at h
    obtain ⟨_, _, ps, r, hr, he⟩ := h
    cases he
    have := ih hr
    simp only [List.length_cons]
    omega
  | case3 c text _ ih =>
    simp only [Option.bind_eq_bind, Option.pure_def, Option.bind_eq_some_iff, Prod.exists] at h
    obtain ⟨_, _, ps, r, hr, he⟩ := h
    cases he
    have := ih hr
    simp only [List.length_cons]
    omega
  | case4 => cases h; simp
  | case5 => simp at h
  | case6 c text _ _ _ _ ih =>
    simp only [Option.bind_eq_bind, Option.pure_def, Option.bind_eq_some_iff, Prod.exists] at h
    obtain ⟨ps, r, hr, he⟩ := h
    cases he
    have := ih hr
    simp only [List.length_cons]
    omega

theorem length_expect?_le {expected text rest : List Char} (h : expect? expected text = some rest) :
    rest.length ≤ text.length := by
  unfold expect? at h
  split at h
  · cases h; simp
  · cases h

theorem length_readToken_le {c : Char} {text rest : List Char} {t : Token}
    (h : readToken c text = some (t, rest)) : rest.length ≤ text.length := by
  unfold readToken at h
  split at h
  · cases h; exact Nat.le_refl _
  · split at h
    · obtain ⟨⟨_, _⟩, hs, he⟩ := Option.map_eq_some_iff.mp h
      cases he
      exact Nat.le_of_lt (length_readString_lt hs)
    · split at h
      · obtain ⟨_, hr, he⟩ := Option.map_eq_some_iff.mp h
        cases he
        exact length_expect?_le hr
      · dsimp only at h
        split at h
        · cases h; exact (List.dropWhile_sublist _).length_le
        · cases h

/-- The tokens of a text, blanks left out; none if something in it is no token. -/
def tokenize (text : List Char) : Option (List Token) :=
  match text with
  | [] => some []
  | c :: rest =>
    if isSpace c then tokenize rest
    else
      match _h : readToken c rest with
      | none => none
      | some (t, rest') => (tokenize rest').map (t :: ·)
termination_by text.length
decreasing_by
  · simp
  · have := length_readToken_le ‹_›; simp only [List.length_cons]; omega

end Descent.Json
