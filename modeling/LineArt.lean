import LineArt.Main
import LineArt.Proofs.CenteredSymmetry
import LineArt.Proofs.Connector
import LineArt.Proofs.Containment
import LineArt.Proofs.ExitCode
import LineArt.Proofs.FieldOrder
import LineArt.Proofs.Independence
import LineArt.Proofs.Inert
import LineArt.Proofs.Marks
import LineArt.Proofs.Multiplier
import LineArt.Proofs.PenPosition
import LineArt.Proofs.Precedence
import LineArt.Proofs.ReadableOutput
import LineArt.Proofs.RepeatCounts
import LineArt.Proofs.Rescaling
import LineArt.Proofs.Restart
import LineArt.Proofs.RoundTrip
import LineArt.Proofs.Semilattice
import LineArt.Proofs.Square
import LineArt.Proofs.Svg.Document
import LineArt.Proofs.TypedPatterns
import LineArt.Proofs.Waypoints
