import Descent.Json.Basic

/-! JSON values as text, without blanks. -/
namespace Descent.Json

/-- A hexadecimal digit. -/
def hexDigit (n : Nat) : Char :=
  if n < 10 then Char.ofNat ('0'.toNat + n) else Char.ofNat ('a'.toNat + (n - 10))

/-- A character of a string literal. Quotes, backslashes and controls are escaped. -/
def renderChar (c : Char) : List Char :=
  if c = '\x22' then ['\\', '\x22']
  else if c = '\\' then ['\\', '\\']
  else if c = '\x08' then ['\\', 'b']
  else if c = '\x0c' then ['\\', 'f']
  else if c = '\n' then ['\\', 'n']
  else if c = '\r' then ['\\', 'r']
  else if c = '\t' then ['\\', 't']
  else if c.toNat < 0x20 then
    ['\\', 'u', '0', '0', hexDigit (c.toNat / 16), hexDigit (c.toNat % 16)]
  else [c]

/-- A string literal. What denotes no text is written as half of a surrogate pair. -/
def renderString : Option String → List Char
  | some text => '\x22' :: (text.toList.flatMap renderChar ++ ['\x22'])
  | none => ['\x22', '\\', 'u', 'd', '8', '0', '0', '\x22']

mutual

def render : Json → List Char
  | .null => ['n', 'u', 'l', 'l']
  | .bool true => ['t', 'r', 'u', 'e']
  | .bool false => ['f', 'a', 'l', 's', 'e']
  | .number literal => literal.toList
  | .string text => renderString text
  | .array items => '[' :: (renderItems items ++ [']'])
  | .object members => '{' :: (renderMembers members ++ ['}'])

/-- Items with commas between them. -/
def renderItems : List Json → List Char
  | [] => []
  | [j] => render j
  | j :: rest => render j ++ ',' :: renderItems rest

/-- A member with its name. -/
def renderMember : Option String × Json → List Char
  | (name, j) => renderString name ++ ':' :: render j

/-- Members with commas between them. -/
def renderMembers : List (Option String × Json) → List Char
  | [] => []
  | [m] => renderMember m
  | m :: rest => renderMember m ++ ',' :: renderMembers rest

end

/-- The text of a value. -/
def toText (j : Json) : String := String.ofList j.render

/-- An object of named members. -/
def record (members : List (String × Json)) : Json :=
  .object (members.map fun (name, j) => (some name, j))

/-- A text as a value. -/
def ofText (text : String) : Json := .string (some text)

/-- A list of values, each written by `write`. -/
def ofList {α : Type} (write : α → Json) (items : List α) : Json := .array (items.map write)

end Descent.Json
