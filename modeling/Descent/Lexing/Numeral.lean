import Descent.Binary64.Rounding

/-!
Numerals: digits, then perhaps a point with digits, then perhaps an exponent. Any of the digits
after the first run may be missing; a numeral without digits in its exponent has no value.
-/
namespace Descent.Lexing

/-- A marker, perhaps a sign, and digits. -/
structure Exponent where
  marker : Char
  sign : Option Char
  digits : List Char
  deriving DecidableEq, Repr

structure Numeral where
  whole : List Char
  fraction : Option (List Char)
  exponent : Option Exponent
  deriving DecidableEq, Repr

/-- What a numeral stands for. -/
inductive Literal where
  | integer (value : Nat)
  | real (value : Binary64)
  deriving DecidableEq, Repr

/-- Integers from here on are too large. -/
def integerBound : Nat := Nat.pow 2 63

/-- The value of a run of decimal digits. -/
def digitsValue (digits : List Char) : Nat :=
  digits.foldl (fun value c => 10 * value + (c.toNat - '0'.toNat)) 0

namespace Exponent

def text (e : Exponent) : List Char := e.marker :: (e.sign.toList ++ e.digits)

def value (e : Exponent) : Int :=
  if e.sign = some '-' then -(digitsValue e.digits : Int) else digitsValue e.digits

/-- A sign at the front of a text, and the rest. -/
def readSign : List Char → Option Char × List Char
  | [] => (none, [])
  | c :: rest => if c = '+' ∨ c = '-' then (some c, rest) else (none, c :: rest)

/-- An exponent at the front of a text, and the rest. -/
def read : List Char → Option Exponent × List Char
  | [] => (none, [])
  | c :: rest =>
    if c = 'e' ∨ c = 'E' then
      let (sign, rest) := readSign rest
      (some ⟨c, sign, rest.takeWhile Char.isDigit⟩, rest.dropWhile Char.isDigit)
    else (none, c :: rest)

theorem readSign_append (t : List Char) : (readSign t).1.toList ++ (readSign t).2 = t := by
  fun_cases readSign t <;> simp_all

theorem read_append (t : List Char) : (read t).1.elim [] text ++ (read t).2 = t := by
  cases t with
  | nil => rfl
  | cons c rest =>
    have h := readSign_append rest
    simp only [read]
    split <;> simp_all [text]

end Exponent

namespace Numeral

def text (n : Numeral) : List Char :=
  n.whole ++ (n.fraction.elim [] ('.' :: ·)) ++ (n.exponent.elim [] Exponent.text)

/-- A point and digits at the front of a text, and the rest. -/
def readFraction : List Char → Option (List Char) × List Char
  | [] => (none, [])
  | c :: rest =>
    if c = '.' then (some (rest.takeWhile Char.isDigit), rest.dropWhile Char.isDigit)
    else (none, c :: rest)

/-- The longest numeral at the front of a text, and the rest. -/
def read (text : List Char) : Numeral × List Char :=
  let (fraction, rest) := readFraction (text.dropWhile Char.isDigit)
  let (exponent, rest) := Exponent.read rest
  (⟨text.takeWhile Char.isDigit, fraction, exponent⟩, rest)

/-- A numeral of one run of digits is an integer, if not too large; any other is a real. -/
def literal? (n : Numeral) : Option Literal :=
  match n.fraction, n.exponent with
  | none, none =>
    let value := digitsValue n.whole
    if value < integerBound then some (.integer value) else none
  | fraction, exponent =>
    let places := fraction.getD []
    if exponent.any (·.digits.isEmpty) then none
    else some (.real (Binary64.ofScientific (digitsValue (n.whole ++ places))
      (exponent.elim 0 Exponent.value - places.length)))

theorem readFraction_append (t : List Char) :
    (readFraction t).1.elim [] ('.' :: ·) ++ (readFraction t).2 = t := by
  fun_cases readFraction t <;> simp_all

/-- Nothing is lost: the numeral as written and the rest make up the text. -/
theorem text_read_append (t : List Char) : (read t).1.text ++ (read t).2 = t := by
  simp [read, text, Exponent.read_append, readFraction_append]

theorem length_read_lt {c : Char} (hc : c.isDigit = true) (t : List Char) :
    (read (c :: t)).2.length < (c :: t).length := by
  have h := congrArg List.length (text_read_append (c :: t))
  have hw : 0 < (read (c :: t)).1.text.length := by simp [read, text, hc]
  simp only [List.length_append] at h
  omega

end Numeral

end Descent.Lexing
