import Sequencer.Discovery
import Sequencer.Session
import Sequencer.Proofs.NestedOrder
import Sequencer.Proofs.FailureDelivery
import Sequencer.Proofs.Accounting
import Sequencer.Proofs.RecorderProtocol
import Sequencer.Proofs.Depths
import Sequencer.Proofs.Window
import Sequencer.Proofs.Idling
import Sequencer.Proofs.RecorderSilence
import Sequencer.Proofs.InlinedQueue
import Sequencer.Proofs.InlinedWorld
import Sequencer.Proofs.InlinedRun
import Sequencer.Proofs.InliningLaw
import Sequencer.Proofs.Suspensions
import Sequencer.Proofs.Cancellation
import Sequencer.Proofs.Independence
import Sequencer.Proofs.OutsideAppends
import Sequencer.Proofs.Entered
import Sequencer.Proofs.Threading
import Sequencer.Proofs.Termination
import Sequencer.Proofs.Nodes
import Sequencer.Proofs.FailureChannel
import Sequencer.Proofs.ObserverTransparency
import Sequencer.Proofs.RecordedForest
import Sequencer.Proofs.Labels
import Sequencer.Proofs.ErrorChains
import Sequencer.Proofs.Dispatch
import Sequencer.Proofs.CheckedSums
import Sequencer.Proofs.Row
import Sequencer.Proofs.Tracing
