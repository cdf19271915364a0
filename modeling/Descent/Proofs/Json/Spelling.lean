import Descent.Json.Basic

/-!
JSON text by its grammar: what spells a value, with blanks wherever they may stand and every
character in any of the ways in which it can be written.
-/
namespace Descent.Json

/-- Blanks of JSON text. -/
def Blanks (w : List Char) : Prop := ∀ c ∈ w, c ∈ [' ', '\t', '\n', '\r']

/-- The code units of a character in UTF-16. -/
def utf16 (c : Char) : List Nat :=
  if c.toNat < 0x10000 then [c.toNat]
  else [0xD800 + (c.toNat - 0x10000) / 0x400, 0xDC00 + (c.toNat - 0x10000) % 0x400]

/-- A hexadecimal digit in either case, and its value. -/
def IsHexDigit (c : Char) (n : Nat) : Prop :=
  n < 16 ∧ (c = Nat.digitChar n ∨ c = (Nat.digitChar n).toUpper)

/-- What may follow a backslash, and the character that it stands for. -/
def escapes : List (Char × Char) :=
  [('\x22', '\x22'), ('\\', '\\'), ('/', '/'), ('b', '\x08'), ('f', '\x0c'), ('n', '\n'),
    ('r', '\r'), ('t', '\t')]

/-- What stands between the quotes of a string, and the code units that it spells. -/
inductive Literal : List Nat → List Char → Prop
  | nil : Literal [] []
  | plain {c : Char} {us : List Nat} {s : List Char} (hc : 0x20 ≤ c.toNat) (hq : c ≠ '\x22')
      (hb : c ≠ '\\') (h : Literal us s) : Literal (utf16 c ++ us) (c :: s)
  | escape {e c : Char} {us : List Nat} {s : List Char} (he : (e, c) ∈ escapes)
      (h : Literal us s) : Literal (utf16 c ++ us) ('\\' :: e :: s)
  | unit {w x y z : Char} {i j k l : Nat} {us : List Nat} {s : List Char} (hw : IsHexDigit w i)
      (hx : IsHexDigit x j) (hy : IsHexDigit y k) (hz : IsHexDigit z l) (h : Literal us s) :
      Literal ((((i * 16 + j) * 16 + k) * 16 + l) :: us) ('\\' :: 'u' :: w :: x :: y :: z :: s)

/-- A string literal and its text, if its code units are those of one. -/
inductive SpellsString : Option String → List Char → Prop
  | text {t s : List Char} (h : Literal (t.flatMap utf16) s) :
      SpellsString (some (String.ofList t)) ('\x22' :: (s ++ ['\x22']))
  | garbled {us : List Nat} {s : List Char} (h : Literal us s)
      (hn : ∀ t : List Char, t.flatMap utf16 ≠ us) :
      SpellsString none ('\x22' :: (s ++ ['\x22']))

/-- One digit or more. -/
def Digits (s : List Char) : Prop := s ≠ [] ∧ ∀ c ∈ s, c.isDigit = true

/-- A number: digits without a leading zero, a fraction and an exponent, neither of which has to be
there. -/
inductive NumberText : List Char → Prop
  | mk {sign whole fraction exponent : List Char} (hs : sign = [] ∨ sign = ['-'])
      (hw : whole = ['0'] ∨ Digits whole ∧ whole.head? ≠ some '0')
      (hf : fraction = [] ∨ ∃ ds, Digits ds ∧ fraction = '.' :: ds)
      (he : exponent = [] ∨ ∃ e sign ds, (e = 'e' ∨ e = 'E') ∧
        (sign = [] ∨ sign = ['+'] ∨ sign = ['-']) ∧ Digits ds ∧ exponent = e :: (sign ++ ds)) :
      NumberText (sign ++ (whole ++ (fraction ++ exponent)))

mutual

/-- The text of a value from its first character to its last. -/
inductive Spells : Json → List Char → Prop
  | null : Spells .null ['n', 'u', 'l', 'l']
  | true : Spells (.bool true) ['t', 'r', 'u', 'e']
  | false : Spells (.bool false) ['f', 'a', 'l', 's', 'e']
  | number {s} (h : NumberText s) : Spells (.number (String.ofList s)) s
  | string {t s} (h : SpellsString t s) : Spells (.string t) s
  | emptyArray {w} (hw : Blanks w) : Spells (.array []) ('[' :: (w ++ [']']))
  | array {js s} (h : SpellsItems js s) : Spells (.array js) ('[' :: (s ++ [']']))
  | emptyObject {w} (hw : Blanks w) : Spells (.object []) ('{' :: (w ++ ['}']))
  | object {ms s} (h : SpellsMembers ms s) : Spells (.object ms) ('{' :: (s ++ ['}']))

/-- The items of an array with commas between them and blanks around each. -/
inductive SpellsItems : List Json → List Char → Prop
  | single {j before s after} (hb : Blanks before) (h : Spells j s) (ha : Blanks after) :
      SpellsItems [j] (before ++ (s ++ after))
  | cons {j js before s after t} (hb : Blanks before) (h : Spells j s) (ha : Blanks after)
      (hr : SpellsItems js t) : SpellsItems (j :: js) (before ++ (s ++ (after ++ ',' :: t)))

/-- A member of an object with its name. -/
inductive SpellsMember : Option String × Json → List Char → Prop
  | mk {name j n before after s} (hn : SpellsString name n) (hb : Blanks before)
      (ha : Blanks after) (h : Spells j s) :
      SpellsMember (name, j) (n ++ (before ++ ':' :: (after ++ s)))

/-- The members of an object with commas between them and blanks around each. -/
inductive SpellsMembers : List (Option String × Json) → List Char → Prop
  | single {m before s after} (hb : Blanks before) (h : SpellsMember m s) (ha : Blanks after) :
      SpellsMembers [m] (before ++ (s ++ after))
  | cons {m ms before s after t} (hb : Blanks before) (h : SpellsMember m s) (ha : Blanks after)
      (hr : SpellsMembers ms t) : SpellsMembers (m :: ms) (before ++ (s ++ (after ++ ',' :: t)))

end

/-- A whole text that spells a value. -/
def SpellsText (j : Json) (text : String) : Prop :=
  ∃ before s after, Blanks before ∧ Spells j s ∧ Blanks after ∧
    text = String.ofList (before ++ (s ++ after))

/-- Every text that spells a value is read as that value. -/
def Reads (read? : String → Option Json) : Prop :=
  ∀ (j : Json) (text : String), SpellsText j text → read? text = some j

end Descent.Json
