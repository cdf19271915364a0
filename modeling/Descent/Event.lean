import Descent.Lexing.Fault
import Descent.Verdict

/-! What the phases report while they work. Each event has a level and one line of text. -/
namespace Descent

/-- Levels from the gravest to the most detailed. -/
inductive Level where
  | error
  | warn
  | info
  | debug
  | trace
  deriving DecidableEq, Repr

namespace Level

def name : Level → String
  | error => "ERROR"
  | warn => "WARN"
  | info => "INFO"
  | debug => "DEBUG"
  | trace => "TRACE"

def rank : Level → Nat
  | error => 1
  | warn => 2
  | info => 3
  | debug => 4
  | trace => 5

end Level

inductive Event where
  /-- A substitution that looks for nothing is left out. -/
  | emptyPattern (replacement : String)
  /-- A substitution took place. -/
  | substituted (pattern replacement : String) (times : Nat)
  | lexingStopped (lexemes : Nat) (fault : Lexing.Fault)
  | lexed (lexemes identifiers integers reals : Nat)
  | compiled (rules : Nat) (main : String)
  /-- A variant is tried at a lexeme. -/
  | trying (rule variant : String) (lexeme : Nat)
  | parsed (lexemes : Nat) (verdict : Verdict) (ignored : Nat)
  /-- A description has been read. -/
  | loaded (words separators rules : Nat)
  /-- A rule of the language in its normal form. -/
  | declared (rule : String)
  | analyzed (lexemes identifiers integers reals : Nat)
  deriving DecidableEq, Repr

namespace Event

def level : Event → Level
  | emptyPattern _ => .warn
  | substituted .. | trying .. | declared _ => .trace
  | lexingStopped .. | lexed .. | compiled .. | parsed .. | loaded .. | analyzed .. => .debug

def message : Event → String
  | emptyPattern replacement =>
    s!"Skipping rewrite rule with an empty pattern (replace by `{replacement}`)"
  | substituted pattern replacement times =>
    s!"Rewrote `{pattern}` -> `{replacement}` {times} times"
  | lexingStopped lexemes fault => s!"Lexing stopped after {lexemes} lexemes: {fault.message}"
  | lexed lexemes identifiers integers reals =>
    s!"Lexed {lexemes} lexemes ({identifiers} identifiers, {integers} integers, {reals} reals)"
  | compiled rules main => s!"Compiled {rules} rules, main rule `{main}`"
  | trying rule variant lexeme => s!"Trying `{rule} ::= {variant}` at lexeme {lexeme}"
  | parsed lexemes verdict ignored =>
    s!"Parsed {lexemes} lexemes: main rule {verdict.name}, {ignored} ignored"
  | loaded words separators rules =>
    s!"Loaded {words} words, {separators} separators, {rules} rules"
  | declared rule => rule
  | analyzed lexemes identifiers integers reals =>
    s!"{lexemes} lexemes, {identifiers} identifiers, {integers} integers, {reals} reals"

/-- The line of a log that reports the event. -/
def line (e : Event) : String := e.level.name ++ " " ++ e.message

end Event

/-- The most detailed level that is reported, or none for silence. -/
abbrev Threshold := Option Level

namespace Threshold

/-- A threshold by its name in any case of its ASCII letters. -/
def ofName? (name : String) : Option Threshold :=
  match name.toLower with
  | "off" => some none
  | "error" => some (some .error)
  | "warn" => some (some .warn)
  | "info" => some (some .info)
  | "debug" => some (some .debug)
  | "trace" => some (some .trace)
  | _ => none

/-- Warnings are reported unless a known name says otherwise. -/
def ofSetting (setting : Option String) : Threshold :=
  (setting.bind ofName?).getD (some .warn)

def admits (threshold : Threshold) (e : Event) : Bool :=
  threshold.any fun level => e.level.rank ≤ level.rank

end Threshold

end Descent
