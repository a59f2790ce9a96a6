import SicXe.Assembly
import SicXe.CommandLine.Card
import SicXe.CommandLine.Host
import SicXe.CommandLine.Invocation
import SicXe.CommandLine.Run
import SicXe.CommandLine.Switch
import SicXe.Diagnostic
import SicXe.Directive
import SicXe.Encoding
import SicXe.Fault
import SicXe.Instruction
import SicXe.Layout
import SicXe.Listing
import SicXe.Listing.Entry
import SicXe.Literal
import SicXe.Main
import SicXe.OpTable
import SicXe.Path
import SicXe.Placement
import SicXe.Record
import SicXe.Register
import SicXe.Session
import SicXe.Statement
import SicXe.Store
import SicXe.SymbolTable
import SicXe.Text.Blank
import SicXe.Text.Case
import SicXe.Text.CaseTable
import SicXe.Text.Json
import SicXe.Text.Lines
import SicXe.Text.Numeral
import SicXe.Token
import SicXe.Proofs.Numbers
import SicXe.Proofs.Content
import SicXe.Proofs.ListingText
import SicXe.Proofs.TypedEncoding
import SicXe.Proofs.Assembling
import SicXe.Proofs.Resolution
import SicXe.Proofs.Tiling
import SicXe.Proofs.Acceptance
import SicXe.Proofs.History
import SicXe.Proofs.FailFast
import SicXe.Proofs.Accounting
import SicXe.Proofs.Relocation
import SicXe.Proofs.ObjectText
import SicXe.Proofs.LetterCase
import SicXe.Proofs.Decoding
import SicXe.Proofs.Precedence
import SicXe.Proofs.Limits
import SicXe.Proofs.Leftover
import SicXe.Proofs.KnownLabels
import SicXe.Proofs.Stores
import SicXe.Proofs.Recording
import SicXe.Proofs.Commands
import SicXe.Proofs.Spacing
import SicXe.Proofs.Productions
import SicXe.Proofs.TableText
import SicXe.Proofs.LineByLine
import SicXe.Proofs.ReserveCounts
import SicXe.Proofs.TableChecks
import SicXe.Proofs.LiteralBytes
import SicXe.Proofs.ObjectPath
