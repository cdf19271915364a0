import Descent.Description.Basic
import Descent.Json.Parser
import Descent.Json.Printer

/-!
Language descriptions in JSON. Each record is an object, in which members of other names are left
out of account, or an array of its fields in order. Lists may be missing; texts, and the grammar,
may not.
-/
namespace Descent

namespace Json

/-- A field that has to be there. -/
def required {α : Type} (read? : Json → Option α) (field : Option Json) : Option α :=
  field.bind read?

/-- A field with a value for when it is missing. -/
def optional {α : Type} (missing : α) (read? : Json → Option α) : Option Json → Option α
  | none => some missing
  | some j => read? j

end Json

open Json (required optional)

namespace CommentStyle

def ofJson? (j : Json) : Option CommentStyle := do
  let field ← j.fields? ["begin", "end"]
  return { opening := ← required Json.text? (field "begin")
           closing := ← required Json.text? (field "end") }

def toJson (s : CommentStyle) : Json :=
  .record [("begin", .ofText s.opening), ("end", .ofText s.closing)]

end CommentStyle

namespace Substitution

def ofJson? (j : Json) : Option Substitution := do
  let field ← j.fields? ["if_found", "replace_by"]
  return { found := ← required Json.text? (field "if_found")
           replacement := ← required Json.text? (field "replace_by") }

def toJson (s : Substitution) : Json :=
  .record [("if_found", .ofText s.found), ("replace_by", .ofText s.replacement)]

end Substitution

namespace LexicalRules

def ofJson? (j : Json) : Option LexicalRules := do
  let field ← j.fields? ["reserved_words", "separators", "comments", "rewrites"]
  return { words := ← optional [] (Json.list? Json.text?) (field "reserved_words")
           separators := ← optional [] (Json.list? Json.text?) (field "separators")
           comments := ← optional [] (Json.list? CommentStyle.ofJson?) (field "comments")
           substitutions := ← optional [] (Json.list? Substitution.ofJson?) (field "rewrites") }

def toJson (r : LexicalRules) : Json :=
  .record [("reserved_words", .ofList .ofText r.words),
    ("separators", .ofList .ofText r.separators),
    ("comments", .ofList CommentStyle.toJson r.comments),
    ("rewrites", .ofList Substitution.toJson r.substitutions)]

end LexicalRules

namespace RuleText

def ofJson? (j : Json) : Option RuleText := do
  let field ← j.fields? ["non_terminal", "can_be"]
  return { name := ← required Json.text? (field "non_terminal")
           body := ← required Json.text? (field "can_be") }

def toJson (r : RuleText) : Json :=
  .record [("non_terminal", .ofText r.name), ("can_be", .ofText r.body)]

end RuleText

namespace GrammarText

def ofJson? (j : Json) : Option GrammarText := do
  let field ← j.fields? ["main_rule", "rules"]
  return { main := ← required Json.text? (field "main_rule")
           rules := ← optional [] (Json.list? RuleText.ofJson?) (field "rules") }

def toJson (g : GrammarText) : Json :=
  .record [("main_rule", .ofText g.main), ("rules", .ofList RuleText.toJson g.rules)]

end GrammarText

namespace Description

def ofJson? (j : Json) : Option Description := do
  let field ← j.fields? ["lexer", "grammar"]
  return { lexical := ← optional {} LexicalRules.ofJson? (field "lexer")
           grammar := ← required GrammarText.ofJson? (field "grammar") }

def toJson (d : Description) : Json :=
  .record [("lexer", d.lexical.toJson), ("grammar", d.grammar.toJson)]

/-- The description that a JSON text holds. -/
def ofText? (text : String) : Option Description := (Json.parse? text).bind ofJson?

end Description

end Descent
