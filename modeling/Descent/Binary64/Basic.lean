/-! Double precision numbers, known by their bits. -/
namespace Descent

/-- An IEEE 754 binary64 number. Two numbers are equal when their bits are, so the zeros differ. -/
structure Binary64 where
  bits : UInt64
  deriving DecidableEq, Repr

namespace Binary64

/-- What the bits stand for: a finite number is `significand * 2 ^ exponent`. -/
inductive Value where
  | nan
  | infinite (negative : Bool)
  | finite (negative : Bool) (significand : Nat) (exponent : Int)
  deriving DecidableEq, Repr

/-- Significands from here on are normal. -/
def unit : Nat := Nat.pow 2 52

/-- The least exponent of a finite number. -/
def leastExponent : Int := -1074

def value (x : Binary64) : Value :=
  let bits := x.bits.toNat
  let negative := bits / Nat.pow 2 63 == 1
  let field := bits / unit % 2048
  let fraction := bits % unit
  if field = 2047 then if fraction = 0 then .infinite negative else .nan
  else if field = 0 then .finite negative fraction leastExponent
  else .finite negative (unit + fraction) (field - 1 + leastExponent)

def zero : Binary64 := ⟨0⟩

def infinity : Binary64 := ⟨0x7FF0000000000000⟩

end Binary64

end Descent
