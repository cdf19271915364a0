/-! What is wrong with the text of a grammar. -/
namespace Descent.Grammar

/-- How a variant is malformed. -/
inductive Fault.Reason where
  | emptyVariant
  | unclosedBracket
  | unopenedBracket
  | emptyRepetition
  deriving DecidableEq, Repr

inductive Fault where
  | unknownTerminal (rule token : String)
  | malformed (rule : String) (reason : Fault.Reason)
  | duplicateRule (rule : String)
  | unknownNonterminal (rule name : String)
  | missingMain (name : String)
  deriving DecidableEq, Repr

namespace Fault

def Reason.message : Reason → String
  | .emptyVariant => "empty variant"
  | .unclosedBracket => "unbalanced `[`"
  | .unopenedBracket => "unbalanced `]`"
  | .emptyRepetition => "empty repetition"

def message : Fault → String
  | .unknownTerminal rule token => s!"unknown terminal: `{token}` (in rule `{rule}`)"
  | .malformed rule reason => s!"rule `{rule}` is incorrect: {reason.message}"
  | .duplicateRule rule => s!"duplicate rule `{rule}`"
  | .unknownNonterminal rule name =>
    s!"unknown nonterminal `\x7b{name}\x7d` (in rule `{rule}`)"
  | .missingMain name => s!"main rule not found: `{name}`"

end Fault

end Descent.Grammar
