import EvidenceExchange.IoError
import EvidenceExchange.State

namespace EvidenceExchange

/-- What both sides report about a payload that went over. -/
structure Delivery where
  pieces : Nat
  bytes : Nat
  digest : String
  deriving DecidableEq

inductive LogEvent where
  | lockAcquired (lockFile : String)
  | socketBound (path : String)
  | connectionAccepted (path : String)
  | socketRemoved (path : String)
  | socketNotRemoved (path : String) (cause : IoError)
  | staleSocketRemoved (path : String)
  | receiverMoved (path : String) (old new : ReceiverState)
  | receiveFailed (path : String) (state : ReceiverState) (error : String)
  | evidenceReceived (path : String) (delivery : Delivery)
  | senderMoved (path : String) (old new : SenderState)
  | sendFailed (path : String) (state : SenderState) (error : String)
  | evidenceSent (path : String) (delivery : Delivery)
  | attemptFailed (attempt max : Nat) (delayMillis : UInt64) (error : String)
  | lastAttemptFailed (attempt : Nat) (error : String)
  deriving DecidableEq

namespace LogEvent

inductive Level where
  | debug
  | info
  | warn
  deriving DecidableEq

def Level.name : Level → String
  | debug => "debug"
  | info => "info"
  | warn => "warn"

inductive FieldValue where
  | text (s : String)
  | number (n : Nat)
  deriving DecidableEq

def level : LogEvent → Level
  | evidenceReceived .. | evidenceSent .. | staleSocketRemoved .. => .info
  | socketNotRemoved .. | attemptFailed .. | lastAttemptFailed .. => .warn
  | _ => .debug

def message : LogEvent → String
  | lockAcquired .. => "socket lock acquired"
  | socketBound .. => "socket bound"
  | connectionAccepted .. => "accepted connection"
  | socketRemoved .. => "socket removed"
  | socketNotRemoved .. => "failed to remove socket"
  | staleSocketRemoved .. => "removed stale socket"
  | receiverMoved .. => "receiver state"
  | receiveFailed .. => "receive failed"
  | evidenceReceived .. => "evidence received"
  | senderMoved .. => "sender state"
  | sendFailed .. => "send failed"
  | evidenceSent .. => "evidence sent"
  | attemptFailed .. => "connection attempt failed, retrying"
  | lastAttemptFailed .. => "final connection attempt failed"

def deliveryFields (path : String) (d : Delivery) : List (String × FieldValue) :=
  [("path", .text path), ("pieces", .number d.pieces), ("bytes", .number d.bytes),
   ("digest", .text d.digest)]

def fields : LogEvent → List (String × FieldValue)
  | lockAcquired path | socketBound path | connectionAccepted path | socketRemoved path
  | staleSocketRemoved path => [("path", .text path)]
  | socketNotRemoved path cause => [("path", .text path), ("error", .text cause.message)]
  | receiverMoved path old new =>
    [("path", .text path), ("from", .text old.name), ("to", .text new.name)]
  | senderMoved path old new =>
    [("path", .text path), ("from", .text old.name), ("to", .text new.name)]
  | receiveFailed path state error =>
    [("path", .text path), ("state", .text state.name), ("error", .text error)]
  | sendFailed path state error =>
    [("path", .text path), ("state", .text state.name), ("error", .text error)]
  | evidenceReceived path d | evidenceSent path d => deliveryFields path d
  | attemptFailed attempt max delay error =>
    [("attempt", .number attempt), ("max", .number max), ("delay_ms", .number delay.toNat),
     ("error", .text error)]
  | lastAttemptFailed attempt error => [("attempt", .number attempt), ("error", .text error)]

end LogEvent

end EvidenceExchange
