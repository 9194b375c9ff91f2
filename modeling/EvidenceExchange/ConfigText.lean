import EvidenceExchange.Config
import EvidenceExchange.Json

namespace EvidenceExchange

/-- The value of a field that may be left out. -/
def fieldOr {α : Type} (fallback : α) (read : Json → Option α) : Option Json → Option α
  | none => some fallback
  | some value => read value

/-- Seconds and nanoseconds, and no other key; whole seconds among the nanoseconds are carried. -/
def Duration.ofJson? (j : Json) : Option Duration := do
  let [some secs, some nanos] ← j.fields? ["secs", "nanos"] false | none
  let secs ← secs.nat?
  let nanos ← nanos.word32?
  if secs < UInt64.size then Duration.ofParts? secs nanos.toNat else none

def SenderConfig.ofJson? (j : Json) : Option SenderConfig := do
  let [socket, retries, interval] ← j.fields? ["socket", "max_retries", "retry_interval"] true | none
  let socket ← fieldOr default.socket Json.text? socket
  let retries ← fieldOr default.maxRetries Json.word32? retries
  let interval ← fieldOr default.retryInterval Duration.ofJson? interval
  return ⟨socket, retries, interval⟩

def ReceiverConfig.ofJson? (j : Json) : Option ReceiverConfig := do
  let [socket, timeout, reclaim] ← j.fields? ["socket", "timeout", "reclaim_stale_socket"] true | none
  let socket ← fieldOr default.socket Json.text? socket
  let timeout ← fieldOr default.timeout Duration.ofJson? timeout
  let reclaim ← fieldOr default.reclaimStaleSocket Json.bool? reclaim
  return ⟨socket, timeout, reclaim⟩

def RetryPolicy.ofJson? (j : Json) : Option RetryPolicy := do
  let [some retries, some interval] ← j.fields? ["max_retries", "interval"] true | none
  let retries ← retries.word32?
  let interval ← Duration.ofJson? interval
  return ⟨retries, interval⟩

end EvidenceExchange
