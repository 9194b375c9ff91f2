import EvidenceExchange.Call
import EvidenceExchange.Config
import EvidenceExchange.Context
import EvidenceExchange.Digest
import EvidenceExchange.Frame.Reader
import EvidenceExchange.Transport

namespace EvidenceExchange

namespace Receiver

inductive Phase where
  | starting
  | locking
  /-- Looks whether a socket stands at the path. -/
  | reclaiming (lock : SocketLock)
  | removing (lock : SocketLock)
  /-- The removal is over, and the call has yet to learn how it went. -/
  | removed (lock : SocketLock) (result : Except IoError Unit)
  | binding (lock : SocketLock)
  | accepting (listener : SocketListener) (deadline : Instant)
  | reading (stream : Endpoint) (deadline : Instant) (reader : FrameReader)
  | settled (result : CallResult Evidence.Bundle)

end Receiver

/-- A receive of one bundle: it locks its path, binds, accepts one connection, gives the path up, reads one
frame and decodes it. One deadline, counted from the bind, covers accepting and reading. At each poll the
end of the context wins over input, and input wins over the deadline. -/
structure Receiver where
  config : ReceiverConfig
  codec : Evidence.Codec
  context : Context
  phase : Receiver.Phase

namespace Receiver

def path (r : Receiver) : String := r.config.socket

def isOver (r : Receiver) : Bool :=
  match r.phase with
  | .settled _ => true
  | _ => false

def goTo (r : Receiver) (phase : Phase) : Receiver := { r with phase := phase }

def finish (r : Receiver) (result : Except ExchangeError Evidence.Bundle) : Receiver :=
  r.goTo (.settled (.returned result))

/-- The end of a call that fails before anybody can connect. -/
def refuse (r : Receiver) (e : ExchangeError) (s : Sockets) : Outcome Receiver :=
  ⟨r.finish (.error e), s, []⟩

/-- The end of an exchange that fails in the given state. -/
def fail (r : Receiver) (state : ReceiverState) (e : ExchangeError) (s : Sockets)
    (log : List LogEvent) : Outcome Receiver :=
  ⟨r.finish (.error e), s,
    log ++ [.receiveFailed r.path state e.message, .receiverMoved r.path state .failed]⟩

def start (r : Receiver) (ts : Tokens) (now : Nat) (s : Sockets) : Outcome Receiver :=
  match r.config.validate with
  | .error e => r.refuse e s
  | .ok () =>
    match r.context.ended? ts now with
    | some cause => r.refuse (.ofCancellation cause) s
    | none => ⟨r.goTo .locking, s, []⟩

/-- If the call ends here, its lock file is opened all the same. -/
def lock (r : Receiver) (ts : Tokens) (now : Nat) (s : Sockets) : Outcome Receiver :=
  match r.context.pollDone ts now with
  | some cause => r.refuse (.ofCancellation cause) (s.detach (.openFile (Transport.lockPath r.path)))
  | none =>
    let o := Transport.lock r.path s
    match o.value with
    | .error e => r.refuse (.bindFailed r.path e) o.sockets
    | .ok l => ⟨r.goTo (if r.config.reclaimStaleSocket then .reclaiming l else .binding l), o.sockets, o.log⟩

def reclaim (r : Receiver) (l : SocketLock) (ts : Tokens) (now : Nat) (s : Sockets) : Outcome Receiver :=
  match r.context.pollDone ts now with
  | some cause => r.refuse (.ofCancellation cause) (Transport.unlock l s)
  | none => ⟨r.goTo (if Transport.hasSocket r.path s then .removing l else .binding l), s, []⟩

/-- If the call ends here, the removal goes on without it, and without its lock. -/
def remove (r : Receiver) (l : SocketLock) (ts : Tokens) (now : Nat) (s : Sockets) : Outcome Receiver :=
  match r.context.pollDone ts now with
  | some cause => r.refuse (.ofCancellation cause) ((Transport.unlock l s).detach (.unlink r.path))
  | none =>
    let (result, s) := Transport.remove r.path s
    ⟨r.goTo (.removed l result), s, []⟩

def reclaimed (r : Receiver) (l : SocketLock) (result : Except IoError Unit) (ts : Tokens) (now : Nat)
    (s : Sockets) : Outcome Receiver :=
  match r.context.pollDone ts now with
  | some cause => r.refuse (.ofCancellation cause) (Transport.unlock l s)
  | none =>
    match Transport.afterRemoval r.path result with
    | (.error e, _) => r.refuse (.bindFailed r.path e) (Transport.unlock l s)
    | (.ok _, log) => ⟨r.goTo (.binding l), s, log⟩

/-- Once bound, the deadline has to be representable. -/
def bind (r : Receiver) (l : SocketLock) (now : Nat) (s : Sockets) : Outcome Receiver :=
  let o := Transport.listen r.path l s
  match o.value with
  | .error e => r.refuse (.bindFailed r.path e) o.sockets
  | .ok listener =>
    match (Instant.ofMillis now).add? r.config.timeout with
    | some deadline => ⟨r.goTo (.accepting listener deadline), o.sockets, o.log⟩
    | none =>
      let closed := Transport.closeListener listener o.sockets
      ⟨r.goTo (.settled .overflowed), closed.sockets, o.log ++ closed.log⟩

/-- The listener goes as soon as one connection is accepted, and also when none is. -/
def accept (r : Receiver) (l : SocketListener) (deadline : Instant) (ts : Tokens) (now : Nat)
    (s : Sockets) : Option (Outcome Receiver) :=
  let giveUp (e : ExchangeError) : Outcome Receiver :=
    let closed := Transport.closeListener l s
    r.fail .listening e closed.sockets closed.log
  match r.context.pollDone ts now with
  | some cause => some (giveUp (.ofCancellation cause))
  | none =>
    match Transport.accept l s with
    | some accepted =>
      match accepted.value with
      | .error e => some (giveUp (.io e))
      | .ok stream =>
        let closed := Transport.closeListener l accepted.sockets
        some ⟨r.goTo (.reading stream deadline (.new .new)), closed.sockets,
          accepted.log ++ closed.log ++
            [.receiverMoved r.path .listening .accepted, .receiverMoved r.path .accepted .readingFrame]⟩
    | none =>
      if Context.timerFired deadline now then some (giveUp (.timeout r.config.timeout)) else none

/-- The end of an exchange whose frame is read: with the bundle that its payload decodes to. -/
def decode (r : Receiver) (payload : Bytes) (s : Sockets) : Outcome Receiver :=
  let moved : LogEvent := .receiverMoved r.path .readingFrame .decoding
  match r.codec.decode payload with
  | .error e => r.fail .decoding (.decode e) s [moved]
  | .ok bundle =>
    ⟨r.finish (.ok bundle), s,
      [moved, .evidenceReceived r.path ⟨bundle.length, payload.length, Digest.short payload⟩,
        .receiverMoved r.path .decoding .done]⟩

def decide (r : Receiver) (result : Except FrameError Bytes) (s : Sockets) : Outcome Receiver :=
  match result with
  | .error e => r.fail .readingFrame (.ofFrame e) s []
  | .ok payload => r.decode payload s

def read (r : Receiver) (stream : Endpoint) (deadline : Instant) (reader : FrameReader) (grain : Nat)
    (ts : Tokens) (now : Nat) (s : Sockets) : Option (Outcome Receiver) :=
  match r.context.pollDone ts now with
  | some cause => some (r.fail .readingFrame (.ofCancellation cause) (s.close stream) [])
  | none =>
    match s.read stream (min grain reader.room) with
    | (.chunk bytes, s) =>
      match (reader.feed bytes).poll with
      | (some result, _) => some (r.decide result (s.close stream))
      | (none, reader) => some ⟨r.goTo (.reading stream deadline reader), s, []⟩
    | (.atEnd, s) => some (r.decide reader.finish (s.close stream))
    | (.failed cause, s) => some (r.decide (.error (.io cause)) (s.close stream))
    | (.blocked, s) =>
      if Context.timerFired deadline now then
        some (r.fail .readingFrame (.timeout r.config.timeout) (s.close stream) [])
      else none

/-- The next thing that the receiver does at this instant, moving no more than `grain` bytes. -/
def move (r : Receiver) (grain : Nat) (ts : Tokens) (now : Nat) (s : Sockets) :
    Option (Outcome Receiver) :=
  match r.phase with
  | .starting => some (r.start ts now s)
  | .locking => some (r.lock ts now s)
  | .reclaiming l => some (r.reclaim l ts now s)
  | .removing l => some (r.remove l ts now s)
  | .removed l result => some (r.reclaimed l result ts now s)
  | .binding l => some (r.bind l now s)
  | .accepting l deadline => r.accept l deadline ts now s
  | .reading stream deadline reader => r.read stream deadline reader grain ts now s
  | .settled _ => none

/-- Whether the call waits for the files, so that it cannot go on before others have had their turn. -/
def waitsForFiles (r : Receiver) : Bool :=
  match r.phase with
  | .locking | .reclaiming _ | .removing _ => true
  | _ => false

/-- Drops the call; what it holds is given back. -/
def abort (r : Receiver) (s : Sockets) : Outcome Receiver :=
  let r' := r.goTo (.settled .aborted)
  match r.phase with
  | .starting => ⟨r', s, []⟩
  | .locking => ⟨r', s.detach (.openFile (Transport.lockPath r.path)), []⟩
  | .removing l => ⟨r', (Transport.unlock l s).detach (.unlink r.path), []⟩
  | .reclaiming l | .removed l _ | .binding l => ⟨r', Transport.unlock l s, []⟩
  | .accepting l _ =>
    let closed := Transport.closeListener l s
    ⟨r', closed.sockets, closed.log⟩
  | .reading stream _ _ => ⟨r', s.close stream, []⟩
  | .settled _ => ⟨r, s, []⟩

def timers (r : Receiver) : List Nat :=
  match r.phase with
  | .accepting _ deadline | .reading _ deadline _ => deadline.tick :: r.context.timers
  | _ => []

end Receiver

end EvidenceExchange
