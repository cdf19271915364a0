import Descent.Json.Token

/-!
JSON values from tokens. The reader is a machine that takes one token at a time: a stack holds the
arrays and objects that are still open, a state says what may come next.
-/
namespace Descent.Json

/-- An open array or object with what has been read of it, the latest first. An object waits for
the value of the member `name`. -/
inductive Frame where
  | array (items : List Json)
  | object (members : List (Option String × Json)) (name : Option String)

/-- What may come next. -/
inductive Expecting where
  /-- A value. -/
  | value
  /-- A value or the end of an array that is still empty. -/
  | item
  /-- A name. -/
  | name (members : List (Option String × Json))
  /-- A name or the end of an object that is still empty. -/
  | member
  /-- The colon after a name. -/
  | colon (members : List (Option String × Json)) (name : Option String)
  /-- More of what is open, or its end, after a value. -/
  | more (value : Json)

structure Reader where
  expecting : Expecting
  frames : List Frame

namespace Reader

/-- Before the first token. -/
def start : Reader := ⟨.value, []⟩

/-- Takes a token where a value may stand. -/
def takeValue (frames : List Frame) : Token → Option Reader
  | .atom value => some ⟨.more value, frames⟩
  | .string text => some ⟨.more (.string text), frames⟩
  | .openBracket => some ⟨.item, frames⟩
  | .openBrace => some ⟨.member, frames⟩
  | _ => none

/-- Takes a name of an open object. -/
def takeName (frames : List Frame) (members : List (Option String × Json)) :
    Token → Option Reader
  | .string name => some ⟨.colon members name, frames⟩
  | _ => none

/-- Takes a token after a value. -/
def takeMore (value : Json) : List Frame → Token → Option Reader
  | .array items :: frames, .comma => some ⟨.value, .array (value :: items) :: frames⟩
  | .array items :: frames, .closeBracket =>
    some ⟨.more (.array (value :: items).reverse), frames⟩
  | .object members name :: frames, .comma => some ⟨.name ((name, value) :: members), frames⟩
  | .object members name :: frames, .closeBrace =>
    some ⟨.more (.object ((name, value) :: members).reverse), frames⟩
  | _, _ => none

/-- Takes one token; none if it must not stand here. -/
def take (r : Reader) (t : Token) : Option Reader :=
  match r.expecting, t with
  | .value, t => takeValue r.frames t
  | .item, .closeBracket => some ⟨.more (.array []), r.frames⟩
  | .item, t => takeValue (.array [] :: r.frames) t
  | .name members, t => takeName r.frames members t
  | .member, .closeBrace => some ⟨.more (.object []), r.frames⟩
  | .member, t => takeName r.frames [] t
  | .colon members name, .colon => some ⟨.value, .object members name :: r.frames⟩
  | .colon _ _, _ => none
  | .more value, t => takeMore value r.frames t

/-- The value that has been read, if it is complete. -/
def result? : Reader → Option Json
  | ⟨.more value, []⟩ => some value
  | _ => none

end Reader

/-- The value that a list of tokens spells. -/
def ofTokens? (tokens : List Token) : Option Json :=
  (tokens.foldlM Reader.take .start).bind Reader.result?

/-- The value of a JSON text. -/
def parse? (text : String) : Option Json := (tokenize text.toList).bind ofTokens?

end Descent.Json
