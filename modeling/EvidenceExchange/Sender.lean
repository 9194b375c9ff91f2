import EvidenceExchange.Call
import EvidenceExchange.Config
import EvidenceExchange.Digest
import EvidenceExchange.Retry
import EvidenceExchange.Transport

namespace EvidenceExchange

namespace Sender

inductive Phase where
  | starting
  | connecting (payload : Bytes) (retry : Retry Unit Endpoint IoError)
  | writing (payload : Bytes) (stream : Endpoint) (rest : Bytes)
  | settled (result : CallResult Unit)

end Sender

/-- A send of one bundle: it encodes the bundle, connects with retries, writes one frame and closes the
writing side. -/
structure Sender where
  config : SenderConfig
  codec : Evidence.Codec
  context : Context
  bundle : Evidence.Bundle
  phase : Sender.Phase

namespace Sender

def path (d : Sender) : String := d.config.socket

def isOver (d : Sender) : Bool :=
  match d.phase with
  | .settled _ => true
  | _ => false

def goTo (d : Sender) (phase : Phase) : Sender := { d with phase := phase }

def finish (d : Sender) (result : Except ExchangeError Unit) : Sender :=
  d.goTo (.settled (.returned result))

def fail (d : Sender) (state : SenderState) (e : ExchangeError) (s : Sockets) (log : List LogEvent) :
    Outcome Sender :=
  ⟨d.finish (.error e), s,
    log ++ [.sendFailed d.path state e.message, .senderMoved d.path state .failed]⟩

/-- The configuration is checked before the bundle is encoded, and the context after both. -/
def start (d : Sender) (s : Sockets) : Outcome Sender :=
  match d.config.validate with
  | .error e => ⟨d.finish (.error e), s, []⟩
  | .ok () =>
    match d.codec.encode d.bundle with
    | .error e => ⟨d.finish (.error (.encode e)), s, []⟩
    | .ok payload => ⟨d.goTo (.connecting payload .start), s, []⟩

/-- Connecting to a path, which takes no time. -/
def connecting (path : String) : Operation Sockets Unit Endpoint IoError where
  call s := ((), s)
  poll _ _ s :=
    let o := Transport.connect path s
    .finished o.value o.sockets
  timers _ := []
  describe := IoError.message

/-- After the retries: write the frame of the payload, unless there is none. -/
def connected (d : Sender) (payload : Bytes) (stream : Endpoint) (s : Sockets) (log : List LogEvent) :
    Outcome Sender :=
  let log := log ++ [.senderMoved d.path .connecting .writing]
  match Frame.encode payload with
  | .error e => d.fail .writing (.ofFrame e) (s.close stream) log
  | .ok frame => ⟨d.goTo (.writing payload stream frame), s, log⟩

def connect (d : Sender) (payload : Bytes) (retry : Retry Unit Endpoint IoError) (ts : Tokens)
    (now : Nat) (s : Sockets) : Option (Outcome Sender) :=
  (retry.move (connecting d.path) d.config.retryPolicy d.context ts now s).map
    fun (retry, s, log) =>
      match retry with
      | .settled (.ok stream) => d.connected payload stream s log
      | .settled (.error (.ended cause)) => d.fail .connecting (.ofCancellation cause) s log
      | .settled (.error (.exhausted attempts last)) =>
        d.fail .connecting (.connectFailed d.path attempts last) s log
      | retry => ⟨d.goTo (.connecting payload retry), s, log⟩

/-- The end of a send whose frame is written. -/
def deliver (d : Sender) (payload : Bytes) (stream : Endpoint) (s : Sockets) : Outcome Sender :=
  ⟨d.finish (.ok ()), (s.shutdownWrite stream).close stream,
    [.senderMoved d.path .writing .done,
      .evidenceSent d.path ⟨d.bundle.length, payload.length, Digest.short payload⟩]⟩

/-- The send ends with the write that takes the last bytes of the frame. -/
def write (d : Sender) (payload : Bytes) (stream : Endpoint) (rest : Bytes) (grain : Nat) (ts : Tokens)
    (now : Nat) (s : Sockets) : Option (Outcome Sender) :=
  match d.context.pollDone ts now with
  | some cause => some (d.fail .writing (.ofCancellation cause) (s.close stream) [])
  | none =>
    match s.write stream rest grain with
    | (.wrote count, s) =>
      match rest.drop count with
      | [] => some (d.deliver payload stream s)
      | rest => some ⟨d.goTo (.writing payload stream rest), s, []⟩
    | (.broken, s) => some (d.fail .writing (.io .brokenPipe) (s.close stream) [])
    | (.blocked, _) => none

/-- The next thing that the sender does at this instant, moving no more than `grain` bytes. -/
def move (d : Sender) (grain : Nat) (ts : Tokens) (now : Nat) (s : Sockets) : Option (Outcome Sender) :=
  match d.phase with
  | .starting => some (d.start s)
  | .connecting payload retry => d.connect payload retry ts now s
  | .writing payload stream rest => d.write payload stream rest grain ts now s
  | .settled _ => none

def abort (d : Sender) (s : Sockets) : Outcome Sender :=
  let d' := d.goTo (.settled .aborted)
  match d.phase with
  | .starting | .connecting _ _ => ⟨d', s, []⟩
  | .writing _ stream _ => ⟨d', s.close stream, []⟩
  | .settled _ => ⟨d, s, []⟩

def timers (d : Sender) : List Nat :=
  match d.phase with
  | .connecting _ retry => retry.timers (connecting d.path) d.context
  | .writing _ _ _ => d.context.timers
  | _ => []

end Sender

end EvidenceExchange
