import CurlyScript.Command.Run
import CurlyScript.Files.Discovery
import CurlyScript.Files.Tree
import CurlyScript.Frontend
import CurlyScript.Main
import CurlyScript.Report.Reporter
import CurlyScript.Proofs.RoundTrip
import CurlyScript.Proofs.Precedence
import CurlyScript.Proofs.InStep
import CurlyScript.Proofs.Layout
import CurlyScript.Proofs.Locality
import CurlyScript.Proofs.Seam
import CurlyScript.Proofs.Concatenation
import CurlyScript.Proofs.NormalForm
import CurlyScript.Proofs.CutOff
import CurlyScript.Proofs.Speculation
import CurlyScript.Proofs.Relexing
import CurlyScript.Proofs.TypeGrammar
import CurlyScript.Proofs.Arrangement
import CurlyScript.Proofs.Isolation
import CurlyScript.Proofs.NumberValues
import CurlyScript.Proofs.TypeText
import CurlyScript.Proofs.ExactSpans
import CurlyScript.Proofs.Complaints
import CurlyScript.Proofs.Recovery
import CurlyScript.Proofs.Openings
import CurlyScript.Proofs.Snippets
import CurlyScript.Proofs.Delivery
import CurlyScript.Proofs.Alignment
import CurlyScript.Proofs.Clipping
import CurlyScript.Proofs.Collecting
