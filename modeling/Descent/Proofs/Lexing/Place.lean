import Descent.Lexing.Fault

/-!
Places in numbers of 32 bits. Sums wrap around, so a place that has been counted up is the true one
where line and column are small enough, and their remainders where they are not.
-/
namespace Descent

namespace Text

/-- A line and a column of 32 bits each. -/
structure Place where
  line : UInt32
  column : UInt32
  deriving DecidableEq, Repr

/-- The place cut to 32 bits. -/
def Position.narrow (p : Position) : Place := ⟨UInt32.ofNat p.line, UInt32.ofNat p.column⟩

namespace Place

def start : Place := ⟨1, 1⟩

/-- The place after `c`. -/
def advance (p : Place) (c : Char) : Place :=
  if c = '\n' then ⟨p.line + 1, 1⟩ else ⟨p.line, p.column + 1⟩

def widen (p : Place) : Position := ⟨p.line.toNat, p.column.toNat⟩

@[simp] theorem narrow_widen (p : Place) : p.widen.narrow = p := by
  simp [widen, Position.narrow]

end Place

namespace Position

variable {p : Position}

theorem narrow_advance (p : Position) (c : Char) : (p.advance c).narrow = p.narrow.advance c := by
  by_cases hc : c = '\n'
  · simp [advance, Place.advance, narrow, hc, UInt32.ofNat_add]
  · simp [advance, Place.advance, narrow, hc, UInt32.ofNat_add]

theorem widen_narrow (hl : p.line < UInt32.size) (hc : p.column < UInt32.size) :
    p.narrow.widen = p := by
  have hline : (UInt32.ofNat p.line).toNat = p.line := UInt32.toNat_ofNat_of_lt' hl
  have hcolumn : (UInt32.ofNat p.column).toNat = p.column := UInt32.toNat_ofNat_of_lt' hc
  simp [Place.widen, narrow, hline, hcolumn]

end Position

end Text

namespace Lexing

/-- The fault at the place cut to 32 bits. -/
def Fault.narrowed (f : Fault) : Fault := { f with place := f.place.narrow.widen }

theorem narrowed_of_lt {f : Fault} (hl : f.place.line < UInt32.size)
    (hc : f.place.column < UInt32.size) : f.narrowed = f := by
  rw [Fault.narrowed, Text.Position.widen_narrow hl hc]

end Lexing

end Descent
