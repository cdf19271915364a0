/-! JSON values. -/
namespace Descent

/-- A JSON value. Numbers keep their spelling; objects keep all members in order, also those of
equal names. A string or name is none when it holds half of a surrogate pair: such a literal is
well formed but denotes no text. -/
inductive Json where
  | null
  | bool (b : Bool)
  | number (literal : String)
  | string (text : Option String)
  | array (items : List Json)
  | object (members : List (Option String × Json))
  deriving Inhabited

namespace Json

/-- The value of the first member with a name. -/
def lookup? (name : String) (members : List (Option String × Json)) : Option Json :=
  (members.find? fun m => m.1 = some name).map Prod.snd

/-- The fields of a record with the given names: an object without repeated fields and perhaps with
other members, or an array of the first so many fields in order. -/
def fields? (names : List String) : Json → Option (String → Option Json)
  | .array items =>
    if items.length ≤ names.length then
      some fun name => (names.idxOf? name).bind (items[·]?)
    else none
  | .object members =>
    let given := members.map Prod.fst
    if none ∉ given ∧ (given.filter fun n => n.any (names.contains ·)).Nodup then
      some fun name => lookup? name members
    else none
  | _ => none

def text? : Json → Option String
  | .string text => text
  | _ => none

/-- The items of an array, each read by `read?`. -/
def list? {α : Type} (read? : Json → Option α) : Json → Option (List α)
  | .array items => items.mapM read?
  | _ => none

end Json

end Descent
