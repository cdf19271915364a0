import Descent.Analysis

/-!
Outlines: a parse tree as text, one node on a line. The indentation shows the depth; a sign shows
the verdict; place and error follow the description.
-/
namespace Descent

open Parse (Node)

namespace Outline

def sign : Verdict → Char
  | .pending => '-'
  | .success => '+'
  | .failure => '!'

/-- The line of a node at a depth, with its newline. -/
def line (lexemes : List Lexeme) (depth : Nat) (n : Node) : String :=
  let place := (n.location? lexemes).elim "" fun l => " @ " ++ l.text
  let error := n.error.elim "" (": " ++ ·)
  String.ofList (List.replicate (2 * depth) ' ' ++ [sign n.verdict, ' ']) ++ n.description ++
    place ++ error ++ "\n"

end Outline

/-- The outline of the tree, then of the leftover lexemes. -/
def Analysis.outline (a : Analysis) : String :=
  String.join (a.tree.tops.flatMap fun top =>
    (top.preorder 0).map fun (depth, n) => Outline.line a.lexemes depth n)

end Descent
