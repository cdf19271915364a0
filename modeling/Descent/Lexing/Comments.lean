import Descent.Description.Basic
import Descent.Lexing.Fault
import Descent.Text.Search

/-!
Comments are blanked before lexing, so that whatever follows them keeps its line and column. They
are located first, all in the text as it was given, and blanked afterwards.
-/
namespace Descent.Lexing

open Text (Position occurrence? isBlank)

/-- A comment takes the characters from `start` up to, not including, `stop`. -/
structure Extent where
  start : Nat
  stop : Nat
  deriving DecidableEq, Repr

def Extent.contains (e : Extent) (i : Nat) : Bool := e.start ≤ i && i < e.stop

/-- The leftmost opening delimiter and its style; of two at one place the style that is listed
first. An empty delimiter opens nothing. -/
def opening? (styles : List CommentStyle) (text : List Char) : Option (Nat × CommentStyle) :=
  match styles with
  | [] => none
  | style :: rest =>
    let here :=
      if style.opening.isEmpty then none
      else (occurrence? style.opening.toList text).map (·, style)
    match here, opening? rest text with
    | some a, some b => if b.1 < a.1 then some b else some a
    | some a, none => some a
    | none, other => other

/-- How many characters follow the first one of a comment that begins `text`. The closing delimiter
may begin at the second character, and the comment is at least as long as its opening delimiter. -/
def commentTail? (style : CommentStyle) (text : List Char) : Option Nat :=
  (occurrence? style.closing.toList (text.drop 1)).map fun offset =>
    max (offset + style.closing.length) (style.opening.length - 1)

/-- The comments of `text`, which begins `offset` characters into the whole, in order; or the place
of one that is never closed. -/
def extents (styles : List CommentStyle) (offset : Nat) (text : List Char) :
    Except Nat (List Extent) :=
  match text with
  | [] => .ok []
  | c :: rest =>
    match opening? styles (c :: rest) with
    | none => .ok []
    | some (skip, style) =>
      match commentTail? style ((c :: rest).drop skip) with
      | none => .error (offset + skip)
      | some tail =>
        let stop := offset + skip + tail + 1
        (extents styles stop (rest.drop (skip + tail))).map (⟨offset + skip, stop⟩ :: ·)
termination_by text.length
decreasing_by simp only [List.length_drop, List.length_cons]; omega

/-- Turns every character inside an extent into a space unless it is a blank already. -/
def blankOut (comments : List Extent) (text : List Char) : List Char :=
  text.mapIdx fun i c => if comments.any (·.contains i) && !isBlank c then ' ' else c

/-- The text with its comments blanked. -/
def stripComments (styles : List CommentStyle) (text : List Char) : Except Fault (List Char) :=
  match extents styles 0 text with
  | .ok comments => .ok (blankOut comments text)
  | .error start => .error ⟨.unterminatedComment, Position.after (text.take start)⟩

end Descent.Lexing
