import ThreeAddress.Code.Instruction
import ThreeAddress.Code.Listing
import ThreeAddress.Code.Lower
import ThreeAddress.Code.Pass
import ThreeAddress.Command.Files
import ThreeAddress.Command.Options
import ThreeAddress.Command.Run
import ThreeAddress.Json
import ThreeAddress.Json.Encode
import ThreeAddress.Main
import ThreeAddress.Pipeline
import ThreeAddress.Program
import ThreeAddress.Program.Declaration
import ThreeAddress.Program.Parse
import ThreeAddress.Program.SyntaxError
import ThreeAddress.Program.Tree
import ThreeAddress.Proofs.Code.Bare
import ThreeAddress.Proofs.Code.Capture
import ThreeAddress.Proofs.Code.Contract
import ThreeAddress.Proofs.Code.Execution
import ThreeAddress.Proofs.Code.Fields
import ThreeAddress.Proofs.Code.Labels
import ThreeAddress.Proofs.Code.Layout
import ThreeAddress.Proofs.Code.Listing
import ThreeAddress.Proofs.Code.Reader
import ThreeAddress.Proofs.Code.Relocation
import ThreeAddress.Proofs.Code.Safety
import ThreeAddress.Proofs.Code.Simulation
import ThreeAddress.Proofs.Code.Sketch
import ThreeAddress.Proofs.Code.TwoShapes
import ThreeAddress.Proofs.Code.Values
import ThreeAddress.Proofs.Code.Words
import ThreeAddress.Proofs.Command.Arguments
import ThreeAddress.Proofs.Command.Files
import ThreeAddress.Proofs.Command.Saving
import ThreeAddress.Proofs.Json.Lossless
import ThreeAddress.Proofs.Json.Text
import ThreeAddress.Proofs.Program.Acceptance
import ThreeAddress.Proofs.Program.Completion
import ThreeAddress.Proofs.Program.Concatenation
import ThreeAddress.Proofs.Program.Drawing
import ThreeAddress.Proofs.Program.EndMark
import ThreeAddress.Proofs.Program.Extension
import ThreeAddress.Proofs.Program.Grammar
import ThreeAddress.Proofs.Program.Reading
import ThreeAddress.Proofs.Program.Recovery
import ThreeAddress.Proofs.Report
import ThreeAddress.Proofs.Report.AnySpan
import ThreeAddress.Proofs.Table
import ThreeAddress.Proofs.Text
import ThreeAddress.Proofs.Token.Gap
import ThreeAddress.Proofs.Token.Joining
import ThreeAddress.Proofs.Token.LongestMatch
import ThreeAddress.Proofs.Token.Numerals
import ThreeAddress.Proofs.Token.Partition
import ThreeAddress.Proofs.Token.Separation
import ThreeAddress.Proofs.Token.Single
import ThreeAddress.Report
import ThreeAddress.Table
import ThreeAddress.Text
import ThreeAddress.Token
import ThreeAddress.Token.Numeral
import ThreeAddress.Token.Piece
import ThreeAddress.Token.Stream
import ThreeAddress.Token.Table
import ThreeAddress.Unicode.DecimalDigit
import ThreeAddress.Unicode.Letter
import ThreeAddress.Unicode.Ranges
import ThreeAddress.Unicode.WhiteSpace
