import Descent.Lexeme

/-! Grammars: rules with variants, each a sequence of items. -/
namespace Descent.Grammar

/-- Nonterminals that match one lexeme by its category. -/
inductive LexicalClass where
  | number
  | identifier
  deriving DecidableEq, Repr

namespace LexicalClass

def name : LexicalClass → String
  | number => "Number"
  | identifier => "Identifier"

def ofName? (name : String) : Option LexicalClass :=
  if name = number.name then some number
  else if name = identifier.name then some identifier
  else none

def admits : LexicalClass → Category → Bool
  | number, c => c.isNumber
  | identifier, c => c = .identifier

theorem ofName?_name (c : LexicalClass) : ofName? c.name = some c := by cases c <;> decide

theorem name_of_ofName? {name : String} {c : LexicalClass} (h : ofName? name = some c) :
    c.name = name := by
  unfold ofName? at h
  grind

end LexicalClass

inductive Item where
  /-- One lexeme whose table holds this text. -/
  | terminal (text : String)
  | lexical (c : LexicalClass)
  /-- A reference to a rule by its name. -/
  | rule (name : String)
  /-- The body any number of times. -/
  | many (body : List Item)

/-- The item that has to match the first lexeme, looked for inside repetitions. -/
def Item.first? : Item → Option Item
  | .many [] => none
  | .many (i :: _) => i.first?
  | i => some i

/-- The first item of a sequence, looked for inside repetitions. -/
def first? (items : List Item) : Option Item := items.head?.bind Item.first?

/-- A sequence of items and its normalized text. -/
structure Variant where
  items : List Item
  text : String

/-- A variant of one literal token adds nothing to the lexeme that it matches. -/
def Variant.isBare (v : Variant) : Bool :=
  match v.items with
  | [.terminal _] => true
  | _ => false

structure Rule where
  name : String
  variants : List Variant

/-- A rule on one line. -/
def Rule.text (r : Rule) : String :=
  r.name ++ " ::= " ++ " | ".intercalate (r.variants.map Variant.text)

end Grammar

/-- Rules in the order of their declaration, and the name of the main one. Compiled rules have
distinct names. -/
structure Grammar where
  rules : List Grammar.Rule
  main : String

namespace Grammar

/-- The index of the rule with a name. -/
def find? (g : Grammar) (name : String) : Option Nat := g.rules.findIdx? (·.name = name)

/-- The rule with a name. -/
def rule? (g : Grammar) (name : String) : Option Rule := g.rules.find? (·.name = name)

/-- The variants of the rule with a name, none if there is no such rule. -/
def variants (g : Grammar) (name : String) : List Variant :=
  (g.rule? name).elim [] Rule.variants

/-- The rules, each on a line of its own. -/
def text (g : Grammar) : String := String.join (g.rules.map fun r => r.text ++ "\n")

end Grammar

end Descent
