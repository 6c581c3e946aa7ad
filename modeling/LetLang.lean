import LetLang.Main
import LetLang.Program.Render
import LetLang.Proofs.Parser.Compositional
import LetLang.Proofs.Parser.Progress
import LetLang.Proofs.Parser.Outcome
import LetLang.Proofs.Grammar.Basic
import LetLang.Proofs.Grammar.Soundness
import LetLang.Proofs.Grammar.Completeness
import LetLang.Proofs.Grammar.Recognition
import LetLang.Proofs.Rendering.Canonical
import LetLang.Proofs.Rendering.RoundTrip
import LetLang.Proofs.Evaluation.DepthLimit
import LetLang.Proofs.Evaluation.Exceptions
import LetLang.Proofs.Evaluation.Frame
import LetLang.Proofs.Session.Signals
import LetLang.Proofs.Session.Lines
import LetLang.Proofs.Session.Layout
import LetLang.Proofs.Lexing.Blanks
import LetLang.Proofs.Lexing.Spelling
import LetLang.Proofs.Lexing.Segmentation
import LetLang.Proofs.Grammar.Concatenation
import LetLang.Proofs.Parser.Lookahead
import LetLang.Proofs.Parser.Recovery
import LetLang.Proofs.Parser.Cutoff
import LetLang.Proofs.Parser.NestingLimit
import LetLang.Proofs.Parser.Diagnostics
import LetLang.Proofs.Parser.Termination
import LetLang.Proofs.Session.Inert
import LetLang.Proofs.Evaluation.Arithmetic
import LetLang.Proofs.Parser.Shape
import LetLang.Proofs.Environment.History
import LetLang.Proofs.Evaluation.Lookups
import LetLang.Proofs.Evaluation.Walk
import LetLang.Proofs.Lexing.Composition
import LetLang.Proofs.Rendering.UniqueReading
import LetLang.Proofs.Session.Numerals
import LetLang.Proofs.Rendering.OneLine
import LetLang.Proofs.Evaluation.Wording
import LetLang.Proofs.Parser.Wording
import LetLang.Proofs.Session.Display
import LetLang.Proofs.Parser.Sources
import LetLang.Proofs.CommandLine.FrontEnds
import LetLang.Proofs.Parser.Tables
