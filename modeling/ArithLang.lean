import ArithLang.Diagnostic
import ArithLang.Proofs.Acceptance
import ArithLang.Proofs.AnyGrouping
import ArithLang.Proofs.Appending
import ArithLang.Proofs.Balance
import ArithLang.Proofs.Caret
import ArithLang.Proofs.Concatenation
import ArithLang.Proofs.Correspondence
import ArithLang.Proofs.Derivation
import ArithLang.Proofs.EndMark
import ArithLang.Proofs.ErrorPlace
import ArithLang.Proofs.Expectation
import ArithLang.Proofs.Faithfulness
import ArithLang.Proofs.Height
import ArithLang.Proofs.InRange
import ArithLang.Proofs.Indexing
import ArithLang.Proofs.Layout
import ArithLang.Proofs.Lexeme
import ArithLang.Proofs.LexicalError
import ArithLang.Proofs.LineScan
import ArithLang.Proofs.Location
import ArithLang.Proofs.LogLines
import ArithLang.Proofs.LongestMatch
import ArithLang.Proofs.Numeral
import ArithLang.Proofs.Picture
import ArithLang.Proofs.Placement
import ArithLang.Proofs.PowerGrouping
import ArithLang.Proofs.Precedence
import ArithLang.Proofs.Printing
import ArithLang.Proofs.Program
import ArithLang.Proofs.Progress
import ArithLang.Proofs.Registration
import ArithLang.Proofs.Regrouping
import ArithLang.Proofs.Repetition
import ArithLang.Proofs.Run
import ArithLang.Proofs.Session
import ArithLang.Proofs.Slice
import ArithLang.Proofs.Source
import ArithLang.Proofs.Tallest
import ArithLang.Proofs.Termination
import ArithLang.Proofs.Threshold
import ArithLang.Proofs.Tiling
import ArithLang.Proofs.Trace
import ArithLang.Proofs.UniqueReadability
import ArithLang.Proofs.ViablePrefix
import ArithLang.Reading
import ArithLang.Text.Cursor
