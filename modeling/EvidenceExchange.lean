import EvidenceExchange.Bytes.Lemmas
import EvidenceExchange.ConfigText
import EvidenceExchange.Context.Named
import EvidenceExchange.Digest
import EvidenceExchange.Exchange
import EvidenceExchange.Frame.Duplex
import EvidenceExchange.Handles
import EvidenceExchange.Proofs.Budget
import EvidenceExchange.Proofs.Cleanup
import EvidenceExchange.Proofs.Context.Ending
import EvidenceExchange.Proofs.Context.Race
import EvidenceExchange.Proofs.Course.Receiver
import EvidenceExchange.Proofs.Course.Sender
import EvidenceExchange.Proofs.Delivery
import EvidenceExchange.Proofs.Encounter.Rendezvous
import EvidenceExchange.Proofs.Evidence.Cuts
import EvidenceExchange.Proofs.Exclusion
import EvidenceExchange.Proofs.Frame.Chunking
import EvidenceExchange.Proofs.Frame.Ledger
import EvidenceExchange.Proofs.Frame.Limits
import EvidenceExchange.Proofs.Frame.Outcome
import EvidenceExchange.Proofs.Frame.Sequence
import EvidenceExchange.Proofs.Frame.Stopping
import EvidenceExchange.Proofs.Handles
import EvidenceExchange.Proofs.Overflow
import EvidenceExchange.Proofs.Reclaiming
import EvidenceExchange.Proofs.Refusal
import EvidenceExchange.Proofs.Retry.Calls
import EvidenceExchange.Proofs.Retry.Outcome
import EvidenceExchange.Proofs.Retry.Pauses
import EvidenceExchange.Proofs.WireImage
import EvidenceExchange.Retry.Rehearsal
import EvidenceExchange.Transit
