import Descent.Text.Escaped
import Descent.Text.Position

/-! What stops a lexical analysis, and where. -/
namespace Descent.Lexing

open Text (Position)

inductive Fault.Cause where
  | unterminatedComment
  | unknownCharacter (c : Char)
  | invalidNumber (text : String)
  | unresolvedToken (text : String)
  deriving DecidableEq, Repr

structure Fault where
  cause : Fault.Cause
  place : Position
  deriving DecidableEq, Repr

namespace Fault

def Cause.message : Cause → String
  | .unterminatedComment => "unterminated comment"
  | .unknownCharacter c => "unknown character `" ++ Text.escape c ++ "`"
  | .invalidNumber text => "invalid number `" ++ text ++ "`"
  | .unresolvedToken text =>
    "preprocessing failed, `" ++ text ++ "` is neither a reserved word nor a separator"

def message (f : Fault) : String :=
  "lexical error at line " ++ toString f.place.line ++ ", column " ++ toString f.place.column ++
    ": " ++ f.cause.message

end Fault

end Descent.Lexing
