import Descent.Analysis
import Descent.Binary64.Shortest
import Descent.Command
import Descent.Description.Json
import Descent.Main
import Descent.Outline
import Descent.Proofs.Parse.Derivation
import Descent.Proofs.Parse.Soundness
import Descent.Proofs.Grammar.LeftRecursion
import Descent.Proofs.Parse.Termination
import Descent.Proofs.Grammar.Sequences
import Descent.Proofs.Parse.Pruning
import Descent.Proofs.Grammar.Compiled
import Descent.Proofs.Parse.FirstFollow
import Descent.Proofs.Parse.Prediction
import Descent.Proofs.Parse.Spans
import Descent.Proofs.Lexicon.Growth
import Descent.Proofs.Lexing.Steps
import Descent.Proofs.Lexing.Substitution
import Descent.Proofs.Lexing.Symbols
import Descent.Proofs.Analysis.History
import Descent.Proofs.Grammar.Printing
import Descent.Proofs.Grammar.Acceptance
import Descent.Proofs.Text.Blank
import Descent.Proofs.Text.Places
import Descent.Proofs.Lexing.Numerals
import Descent.Proofs.Lexing.Blanking
import Descent.Proofs.Lexing.Layout
import Descent.Proofs.Lexing.Fidelity
import Descent.Proofs.Lexing.Coherence
import Descent.Proofs.Parse.Verdicts
import Descent.Proofs.Grammar.Indexed
import Descent.Proofs.Parse.Indexed
import Descent.Proofs.Grammar.Order
import Descent.Proofs.Lexing.Openings
import Descent.Proofs.Text.Lines
import Descent.Proofs.Lexing.Spacing
import Descent.Proofs.Analysis.Layout
import Descent.Proofs.Parse.Failures
import Descent.Proofs.Parse.OrderedChoice
import Descent.Proofs.Lexing.Sorting
import Descent.Proofs.Analysis.Locations
import Descent.Proofs.Json.Tokens
import Descent.Proofs.Json.Reading
import Descent.Proofs.Json.Records
import Descent.Proofs.Description.RoundTrip
import Descent.Proofs.Lexing.Sweep
import Descent.Proofs.Lexing.Place
import Descent.Proofs.Lexing.Offsets
import Descent.Proofs.Lexing.Replacement
import Descent.Proofs.Lexing.InPlace
import Descent.Proofs.Lexing.Atomicity
import Descent.Proofs.Lexing.ScanFaults
import Descent.Proofs.Grammar.Normalization
import Descent.Proofs.Lexing.NumeralScan
import Descent.Proofs.Lexing.Cursor
import Descent.Proofs.Lexing.CursorScan
import Descent.Proofs.Parse.Noninterference
import Descent.Proofs.Text.OneLine
import Descent.Proofs.Text.Words
import Descent.Proofs.Lexing.Wording
import Descent.Proofs.Parse.Wording
import Descent.Proofs.Parse.Shapes
import Descent.Proofs.Analysis.Outline
import Descent.Proofs.Analysis.Verdicts
import Descent.Proofs.Lexicon.Registration
