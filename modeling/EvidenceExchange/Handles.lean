import EvidenceExchange.FileStep
import EvidenceExchange.Frame.Reader
import EvidenceExchange.Transport

namespace EvidenceExchange

inductive Handle where
  | lock (l : SocketLock)
  | listener (l : SocketListener)
  | stream (e : Endpoint)

structure Handles where
  sockets : Sockets
  named : List (String × Handle)

inductive HandleCall where
  | file (step : FileStep)
  | lock (path name : String)
  | listen (path lock name : String)
  | reclaim (path lock : String)
  | connect (path name : String)
  | accept (listener name : String)
  | write (stream : String) (data : Bytes)
  | readFrame (stream : String)
  | drop (name : String)

inductive HandleAnswer where
  | done
  | succeeded
  | fileStepFailed
  | path (path : String)
  | reclaimed (removed : Bool)
  | pending
  | noHandle
  | frame (payload : Bytes)
  | ioError (cause : IoError)
  | frameError (cause : FrameError)

namespace Handles

def empty : Handles := ⟨.empty, []⟩

def find? (h : Handles) (name : String) : Option Handle := h.named.lookup name

def forget (h : Handles) (name : String) : Handles :=
  { h with named := h.named.filter (·.1 != name) }

/-- Gives back what a handle holds. -/
def release (s : Sockets) : Handle → Outcome Unit
  | .lock l => ⟨(), Transport.unlock l s, []⟩
  | .listener l => Transport.closeListener l s
  | .stream e => ⟨(), s.close e, []⟩

/-- Drops the handle of a name, if there is one. -/
def dropName (h : Handles) (name : String) : Handles × List LogEvent :=
  match h.find? name with
  | some handle =>
    let o := release h.sockets handle
    ({ h.forget name with sockets := o.sockets }, o.log)
  | none => (h, [])

/-- Gives a new handle its name; a handle that had the name before is dropped. -/
def put (h : Handles) (name : String) (handle : Handle) (log : List LogEvent) :
    Handles × List LogEvent :=
  let (h, dropped) := h.dropName name
  ({ h with named := (name, handle) :: h.named }, log ++ dropped)

/-- The answer of a call that ends with a new handle or an I/O error. -/
def settle {α : Type} (h : Handles) (name : String) (o : Outcome (Except IoError α))
    (wrap : α → Handle) (reply : α → HandleAnswer) : HandleAnswer × Handles × List LogEvent :=
  let h := { h with sockets := o.sockets }
  match o.value with
  | .ok a =>
    let (h, log) := h.put name (wrap a) o.log
    (reply a, h, log)
  | .error e => (.ioError e, h, o.log)

/-- Writes everything, as far as there is room. -/
def writeAll (s : Sockets) (e : Endpoint) (data : Bytes) : HandleAnswer × Sockets :=
  match s.write e data data.length with
  | (.wrote count, s) => (if count = data.length then .succeeded else .pending, s)
  | (.blocked, s) => (.pending, s)
  | (.broken, s) => (.ioError .brokenPipe, s)

def frameAnswer : Except FrameError Bytes → HandleAnswer
  | .ok payload => .frame payload
  | .error e => .frameError e

/-- Reads a frame from what is there, in so many reads at most. What was read is lost if that does
not decide the frame. -/
def readFrame (e : Endpoint) : Nat → FrameReader → Sockets → HandleAnswer × Sockets
  | 0, _, s => (.pending, s)
  | reads + 1, reader, s =>
    match s.read e reader.room with
    | (.chunk bytes, s) =>
      match (reader.feed bytes).poll with
      | (some result, _) => (frameAnswer result, s)
      | (none, reader) => readFrame e reads reader s
    | (.atEnd, s) => (frameAnswer reader.finish, s)
    | (.failed cause, s) => (.frameError (.io cause), s)
    | (.blocked, s) => (.pending, s)

/-- Each read takes a byte or is the last one. -/
def readsForFrame (s : Sockets) (e : Endpoint) : Nat :=
  ((s.connections[e.connection]?).map fun c => (c.incoming e.side).unreadCount).getD 0 + 1

/-- One call of the transport, or a change of the files. A listener takes its lock with it. -/
def apply (h : Handles) : HandleCall → HandleAnswer × Handles × List LogEvent
  | .file step =>
    let (succeeded, s) := h.sockets.applyFileStep step
    (if succeeded then .done else .fileStepFailed, { h with sockets := s }, [])
  | .lock path name =>
    h.settle name (Transport.lock path h.sockets) .lock (.path ·.file)
  | .listen path lock name =>
    match h.find? lock with
    | some (.lock l) =>
      (h.forget lock).settle name (Transport.listen path l h.sockets) .listener (.path ·.path)
    | _ => (.noHandle, h, [])
  | .reclaim path lock =>
    match h.find? lock with
    | some (.lock l) =>
      let o := Transport.reclaim path l h.sockets
      let answer : HandleAnswer :=
        match o.value with
        | .ok removed => .reclaimed removed
        | .error e => .ioError e
      (answer, { h with sockets := o.sockets }, o.log)
    | _ => (.noHandle, h, [])
  | .connect path name =>
    h.settle name (Transport.connect path h.sockets) .stream fun _ => .succeeded
  | .accept listener name =>
    match h.find? listener with
    | some (.listener l) =>
      match Transport.accept l h.sockets with
      | some o => h.settle name o .stream fun _ => .succeeded
      | none => (.pending, h, [])
    | _ => (.noHandle, h, [])
  | .write stream data =>
    match h.find? stream with
    | some (.stream e) =>
      let (answer, s) := writeAll h.sockets e data
      (answer, { h with sockets := s }, [])
    | _ => (.noHandle, h, [])
  | .readFrame stream =>
    match h.find? stream with
    | some (.stream e) =>
      let (answer, s) := readFrame e (readsForFrame h.sockets e) (.new .new) h.sockets
      (answer, { h with sockets := s }, [])
    | _ => (.noHandle, h, [])
  | .drop name =>
    match h.find? name with
    | some _ =>
      let (h, log) := h.dropName name
      (.done, h, log)
    | none => (.noHandle, h, [])

end Handles

end EvidenceExchange
