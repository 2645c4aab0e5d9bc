import HeciMailbox.Bus.Replay
import HeciMailbox.Bus.Window
import HeciMailbox.Main
import HeciMailbox.Proofs.WholeFrames
import HeciMailbox.Proofs.Conveyance
import HeciMailbox.Proofs.Delivery
import HeciMailbox.Proofs.FlowControl
import HeciMailbox.Proofs.HostRing
import HeciMailbox.Proofs.Reaches
import HeciMailbox.Transport.Drain
import HeciMailbox.Proofs.Feed
import HeciMailbox.Proofs.Phases
import HeciMailbox.Proofs.Framing
import HeciMailbox.Proofs.NextMessage
import HeciMailbox.Proofs.Interruptions
import HeciMailbox.Proofs.Echoes
import HeciMailbox.Proofs.Intake
import HeciMailbox.Proofs.Requests
import HeciMailbox.Proofs.Agreement
import HeciMailbox.Proofs.Renewal
import HeciMailbox.Proofs.Rewrites
import HeciMailbox.Proofs.Handshakes
import HeciMailbox.Proofs.Timeouts
import HeciMailbox.Proofs.Replies
import HeciMailbox.Proofs.ExactFit
import HeciMailbox.Proofs.Draining
import HeciMailbox.Proofs.Queries
import HeciMailbox.Proofs.Exchanges
import HeciMailbox.Proofs.Parsing
import HeciMailbox.Proofs.Conservation
import HeciMailbox.Proofs.Recovery
import HeciMailbox.Proofs.Termination
import HeciMailbox.Proofs.Queues
import HeciMailbox.Proofs.Encoding
import HeciMailbox.Proofs.Resolution
import HeciMailbox.Proofs.Counters
import HeciMailbox.Proofs.HexWords
import HeciMailbox.Proofs.Settings
import HeciMailbox.Proofs.Simulations
import HeciMailbox.Proofs.Integrity
import HeciMailbox.Proofs.Headers
