import Descent.Text.Visible

/-! Characters as messages quote them. -/
namespace Descent.Text

/-- Lower-case hexadecimal digits, at least one and no padding. -/
def hex (n : Nat) : String := String.ofList (Nat.toDigits 16 n)

/-- A quoted character stays on one line and can be recognized: a backslash form for the usual
controls, quotes and the backslash, the code point for whatever does not show alone. -/
def escape (c : Char) : String :=
  if c = '\x00' then "\\0"
  else if c = '\t' then "\\t"
  else if c = '\r' then "\\r"
  else if c = '\n' then "\\n"
  else if c = '\\' ∨ c = '\x22' ∨ c = '\x27' then String.ofList ['\\', c]
  else if isVisible c then c.toString
  else "\\u\x7b" ++ hex c.toNat ++ "\x7d"

end Descent.Text
