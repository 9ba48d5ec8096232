import Straightline.Backend
import Straightline.BuildError
import Straightline.Builder
import Straightline.Builder.Script
import Straightline.Constant
import Straightline.Decimal
import Straightline.Identifier
import Straightline.Instr
import Straightline.Instr.Decode
import Straightline.Interpreter
import Straightline.Operand
import Straightline.Program
import Straightline.Program.Checked
import Straightline.Program.Printer
import Straightline.Reader
import Straightline.Recorder
import Straightline.Ref
import Straightline.Scalar
import Straightline.Source
import Straightline.Source.Elaborate
import Straightline.Source.Grammar
import Straightline.Source.Parse
import Straightline.Text
import Straightline.Text.Letters
import Straightline.TextCheck
import Straightline.TextCheck.Directive
import Straightline.TextCheck.Matcher
import Straightline.TextCheck.Pattern
import Straightline.TextCheck.Report
import Straightline.TextCheck.Search
import Straightline.Trial
import Straightline.Proofs.Ends
import Straightline.Proofs.Calls
import Straightline.Proofs.Growth
import Straightline.Proofs.WellFormed
import Straightline.Proofs.Runs
import Straightline.Proofs.Realizes
import Straightline.Proofs.Elaborate
import Straightline.Proofs.Layout
import Straightline.Proofs.Mirrors
import Straightline.Proofs.RoundTrip
import Straightline.Proofs.Simulation
import Straightline.Proofs.MirrorRuns
import Straightline.Proofs.Lasting
import Straightline.Proofs.Reduction
import Straightline.Proofs.Exact
import Straightline.Proofs.ReadTrees
import Straightline.Proofs.Reread
import Straightline.Proofs.Comments
import Straightline.Proofs.EntryBlank
import Straightline.Proofs.Interleaving
import Straightline.Proofs.Spelling
import Straightline.Proofs.Verbatim
import Straightline.Proofs.References
import Straightline.Proofs.Orders
import Straightline.Proofs.Recording
import Straightline.Proofs.Rejection
import Straightline.Proofs.Rebuild
import Straightline.Proofs.Writing
import Straightline.Proofs.DepthLimit
import Straightline.Proofs.DefiniteAssignment
import Straightline.Proofs.Abreast
import Straightline.Proofs.MethodOrder
import Straightline.Proofs.ViablePrefix
import Straightline.Proofs.ErrorPosition
import Straightline.Proofs.CallRanks
import Straightline.Proofs.DeadCode
import Straightline.Proofs.Ranges
import Straightline.Proofs.DeclaredTypes
import Straightline.Proofs.Decoding
import Straightline.Proofs.Residues
import Straightline.Proofs.Emission
import Straightline.Proofs.LoadedConstants
import Straightline.Proofs.WordEnds
import Straightline.Proofs.Numerals
import Straightline.Proofs.TypeNames
import Straightline.Proofs.Literals
