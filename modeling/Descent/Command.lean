import Descent.Description.Json
import Descent.Outline

/-!
The command: it reads a language description and a source text and writes the outline of the
analysis. Reading is left to the caller, so that a command is a function of what it reads.
-/
namespace Descent.Command

/-- Why a command ends without an analysis. -/
inductive Failure where
  | usage
  | unreadableLanguage (path : String)
  | malformedLanguage (path : String)
  | rejectedLanguage (path : String) (fault : Grammar.Fault)
  | unreadableSource (path : String)
  | unreadableInput
  /-- The grammar refers back to a rule without taking a lexeme first. -/
  | endless
  deriving DecidableEq, Repr

/-- What is known of the error behind a failure. -/
inductive Cause where
  /-- There is none. -/
  | none
  | known (message : String)
  /-- Whoever reads the files or the text words it. -/
  | foreign
  deriving DecidableEq, Repr

/-- A text to stand in an indented block: its lines after the first begin with the indentation. -/
def hanging (text : String) : String :=
  String.ofList (text.toList.flatMap fun c =>
    if c = '\n' then ['\n', ' ', ' ', ' ', ' '] else [c])

namespace Failure

def message : Failure → String
  | usage => "usage: lexgram <language.json> [source]"
  | unreadableLanguage path => s!"Failed to read language `{path}`"
  | malformedLanguage path | rejectedLanguage path _ => s!"Invalid language `{path}`"
  | unreadableSource path => s!"Failed to read source `{path}`"
  | unreadableInput => "Failed to read source from stdin"
  | endless => "the grammar is left recursive"

def cause : Failure → Cause
  | usage | endless => .none
  | rejectedLanguage _ fault => .known fault.message
  | unreadableLanguage _ | malformedLanguage _ | unreadableSource _ | unreadableInput => .foreign

end Failure

/-- How a command ends: with an outline and whether the source was accepted, or with a failure. -/
inductive Result where
  | analyzed (accepted : Bool) (outline : String)
  | failed (failure : Failure)

/-- A result and what was reported before. -/
structure Report where
  result : Result
  events : List Event

namespace Report

def exitCode (r : Report) : Nat :=
  match r.result with
  | .analyzed true _ => 0
  | .analyzed false _ => 1
  | .failed _ => 2

def output (r : Report) : String :=
  match r.result with
  | .analyzed _ outline => outline
  | .failed _ => ""

def failure? (r : Report) : Option Failure :=
  match r.result with
  | .analyzed .. => none
  | .failed f => some f

/-- A report with earlier events in front. -/
def following (events : List Event) (r : Report) : Report := { r with events := events ++ r.events }

end Report

/-- A language from the text of its description, and the events of reading it. -/
def readLanguage (path json : String) : Except Failure Language × List Event :=
  match Description.ofText? json with
  | none => (.error (.malformedLanguage path), [])
  | some d =>
    let loaded := Event.loaded d.lexical.words.length d.lexical.separators.length
      d.grammar.rules.length
    match Language.ofDescription d with
    | .error fault => (.error (.rejectedLanguage path fault), [loaded])
    | .ok l =>
      (.ok l, loaded :: Grammar.compiledEvent l.grammar ::
        l.grammar.rules.map fun r => .declared r.text)

/-- The analysis of a source text by a language. -/
def analyzeSource (l : Language) (source : String) : Report :=
  match l.analyze source with
  | none => ⟨.failed .endless, []⟩
  | some a =>
    let counts := Event.analyzed a.lexemes.length a.lexicon.identifiers.size
      a.lexicon.integers.size a.lexicon.reals.size
    ⟨.analyzed a.isSuccess a.outline, a.events ++ [counts]⟩

/-- The command with its arguments: the path of a description and perhaps that of a source, which is
`input` otherwise. A reading gives none when there is no text to be had. -/
def run {m : Type → Type} [Monad m] (file : String → m (Option String))
    (input : m (Option String)) (arguments : List String) : m Report := do
  let failed (f : Failure) : Report := ⟨.failed f, []⟩
  let analyze (path : String) (source : m (Option String)) (missing : Failure) : m Report := do
    match ← file path with
    | none => return failed (.unreadableLanguage path)
    | some json =>
      match readLanguage path json with
      | (.error f, events) => return ⟨.failed f, events⟩
      | (.ok l, events) =>
        match ← source with
        | none => return (failed missing).following events
        | some text => return (analyzeSource l text).following events
  match arguments with
  | [path] => analyze path input .unreadableInput
  | [path, source] => analyze path (file source) (.unreadableSource source)
  | _ => return failed .usage

end Descent.Command
