import LatinToScript.Numeral
import LatinToScript.Token.Scan
import LatinToScript.Program.Parse
import LatinToScript.Program.Native
import LatinToScript.Program.Script
import LatinToScript.Compile
import LatinToScript.Diagnostic.Report
import LatinToScript.Files.FileTree
import LatinToScript.Command.Run
import LatinToScript.Main
import LatinToScript.Proofs.Grammar.Derivation
import LatinToScript.Proofs.Grammar.Nesting
import LatinToScript.Proofs.Grammar.Production
import LatinToScript.Proofs.Grammar.StatementProduction
import LatinToScript.Proofs.Grammar.Acceptance
import LatinToScript.Proofs.Numeral
import LatinToScript.Proofs.Numeral.Canonical
import LatinToScript.Proofs.Numeral.Runs
import LatinToScript.Proofs.Position
import LatinToScript.Proofs.Token.Lexical
import LatinToScript.Proofs.Token.Partition
import LatinToScript.Proofs.Token.Balance
import LatinToScript.Proofs.Token.Partners
import LatinToScript.Proofs.Token.Number
import LatinToScript.Proofs.Token.Verdict
import LatinToScript.Proofs.Relabeling
import LatinToScript.Proofs.Script.Layout
import LatinToScript.Proofs.Script.Translation
import LatinToScript.Proofs.Script.Splitting
import LatinToScript.Proofs.Script.Legible
import LatinToScript.Proofs.Grammar.Balance
import LatinToScript.Proofs.Grammar.Failure
import LatinToScript.Proofs.Program.WellFormed
import LatinToScript.Proofs.Program.Latin
import LatinToScript.Proofs.Program.Tree
import LatinToScript.Proofs.Program.Native
import LatinToScript.Proofs.Program.Preorder
import LatinToScript.Proofs.Script.Determinacy
import LatinToScript.Proofs.Grammar.InStep
import LatinToScript.Proofs.Grammar.Alike
import LatinToScript.Proofs.Grammar.Separators
import LatinToScript.Proofs.Composition
import LatinToScript.Proofs.Grammar.Viable
import LatinToScript.Proofs.Grammar.FirstFault
import LatinToScript.Proofs.Spacing
import LatinToScript.Proofs.Script.Vocabulary
import LatinToScript.Proofs.Diagnostic.Label
import LatinToScript.Proofs.Diagnostic.Span
import LatinToScript.Proofs.Grammar.Limit
import LatinToScript.Proofs.Json.Read
import LatinToScript.Proofs.Json.Dump
import LatinToScript.Proofs.Diagnostic.Location
import LatinToScript.Proofs.Command.Effects
import LatinToScript.Proofs.Program.Fusion
import LatinToScript.Proofs.Script.Continuation
import LatinToScript.Proofs.Script.Literals
import LatinToScript.Proofs.Files.Laws
