/-! Verdicts on the parts of a parse. -/
namespace Descent

inductive Verdict where
  /-- No verdict of its own: a lexeme, or a variant that only passes one literal through. -/
  | pending
  | success
  | failure
  deriving DecidableEq, Repr

namespace Verdict

def name : Verdict → String
  | pending => "Pending"
  | success => "Success"
  | failure => "Failure"

end Verdict

end Descent
