import EcmaPrinter.Command.Arguments
import EcmaPrinter.Command.Files
import EcmaPrinter.Command.Run
import EcmaPrinter.Main
import EcmaPrinter.Proofs.Grammar.DanglingElse
import EcmaPrinter.Proofs.Grammar.RoundTrip
import EcmaPrinter.Proofs.Lexical.Compact
import EcmaPrinter.Proofs.Fragment.Parts
import EcmaPrinter.Proofs.Hazard.Opening
import EcmaPrinter.Proofs.Hazard.Start
import EcmaPrinter.Proofs.Hazard.Balance
import EcmaPrinter.Proofs.Hazard.LoopHead
import EcmaPrinter.Proofs.Render.Conservative
import EcmaPrinter.Proofs.Hazard.Prologue
import EcmaPrinter.Proofs.Tree.Leaves
import EcmaPrinter.Proofs.Render.Layout
import EcmaPrinter.Proofs.Render.Inline
import EcmaPrinter.Proofs.Render.Decoding
import EcmaPrinter.Proofs.Number.Shortest
import EcmaPrinter.Proofs.Tree.Order
import EcmaPrinter.Proofs.Tree.Loading
import EcmaPrinter.Proofs.Command.Rendering
import EcmaPrinter.Proofs.Text.Quotation
import EcmaPrinter.Proofs.Number.Denoted
import EcmaPrinter.Proofs.Render.PropertyKey
import EcmaPrinter.Proofs.Stream.Breaks
