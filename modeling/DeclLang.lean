import DeclLang.Lexeme.Cursor
import DeclLang.Main
import DeclLang.Proofs.Lexical.FirstPiece
import DeclLang.Proofs.Lexical.Layout
import DeclLang.Proofs.Grammar.Derivation
import DeclLang.Proofs.Printer.RoundTrip
import DeclLang.Proofs.Grammar.FirstError
import DeclLang.Proofs.Grammar.Agreement
import DeclLang.Proofs.Grammar.AllErrors
import DeclLang.Proofs.Grammar.Cascade
import DeclLang.Proofs.Grammar.Chunk
import DeclLang.Proofs.Grammar.Recovery
import DeclLang.Proofs.Lexical.Place
import DeclLang.Proofs.Lexical.Truncation
import DeclLang.Proofs.Grammar.Place
import DeclLang.Proofs.Grammar.Reader
import DeclLang.Proofs.Grammar.Expected
import DeclLang.Proofs.Grammar.Unplaced
import DeclLang.Proofs.Printer.Freeform
import DeclLang.Proofs.Lexical.Lines
import DeclLang.Proofs.Printer.Formatting
import DeclLang.Proofs.Report.Scan
import DeclLang.Proofs.Report.Extent
import DeclLang.Proofs.Report.Location
import DeclLang.Proofs.Command.Rewrite
import DeclLang.Proofs.Command.Check
import DeclLang.Proofs.Command.Show
import DeclLang.Proofs.Lexical.Stream
import DeclLang.Proofs.Lexical.Stretch
import DeclLang.Proofs.Printer.Quoting
import DeclLang.Proofs.Grammar.Extract
import DeclLang.Proofs.Printer.Integers
import DeclLang.Proofs.Text.Lines
import DeclLang.Proofs.Printer.Placement
import DeclLang.Proofs.Text.LineEnds
import DeclLang.Proofs.LineDiff.Records
import DeclLang.Proofs.LineDiff.Patch
import DeclLang.Proofs.Printer.Outline
import DeclLang.Proofs.Printer.Json
import DeclLang.Proofs.Lexical.Listing
import DeclLang.Proofs.FileTree.Order
import DeclLang.Proofs.FileTree.Reordered
import DeclLang.Proofs.FileTree.Collected
import DeclLang.Proofs.Grammar.Parser
import DeclLang.Proofs.Grammar.ParserItem
import DeclLang.Proofs.Grammar.ParserTurn
import DeclLang.Proofs.Grammar.Progress
