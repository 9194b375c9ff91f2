import EvidenceExchange.Log
import EvidenceExchange.Sockets

namespace EvidenceExchange

/-- What a call of the transport gives, leaves and reports. -/
structure Outcome (α : Type) where
  value : α
  sockets : Sockets
  log : List LogEvent

structure SocketLock where
  /-- The path of the locked file. -/
  file : String
  entry : Nat
  deriving DecidableEq

structure SocketListener where
  path : String
  entry : Nat
  lock : SocketLock
  deriving DecidableEq

namespace Transport

def lockPath (path : String) : String := path ++ ".lock"

def heldElsewhere (path : String) : IoError :=
  .custom .addrInUse (path ++ " is held by another receiver")

/-- Locks the file beside a path, which is made if there is none and stays for good. -/
def lock (path : String) (s : Sockets) : Outcome (Except IoError SocketLock) :=
  match s.fs.openFile (lockPath path) with
  | .error e => ⟨.error e, s, []⟩
  | .ok (entry, fs) =>
    if s.locked.contains entry then ⟨.error (heldElsewhere path), { s with fs := fs }, []⟩
    else
      ⟨.ok ⟨lockPath path, entry⟩, { s with fs := fs, locked := entry :: s.locked },
        [.lockAcquired (lockPath path)]⟩

def unlock (l : SocketLock) (s : Sockets) : Sockets :=
  { s with locked := s.locked.erase l.entry }

/-- Binds a socket under a lock. The lock goes with the listener, and is released if there is none. -/
def listen (path : String) (l : SocketLock) (s : Sockets) : Outcome (Except IoError SocketListener) :=
  match s.bind path with
  | (.error e, s) => ⟨.error e, unlock l s, []⟩
  | (.ok entry, s) => ⟨.ok ⟨path, entry, l⟩, s, [.socketBound path]⟩

/-- Whether a socket stands at a path. -/
def hasSocket (path : String) (s : Sockets) : Bool :=
  match s.fs.entryAt? path with
  | some ⟨_, _, _, .socket⟩ => true
  | _ => false

/-- Removes whatever stands at a path. -/
def remove (path : String) (s : Sockets) : Except IoError Unit × Sockets :=
  match s.fs.unlink path with
  | .ok fs => (.ok (), { s with fs := fs })
  | .error e => (.error e, s)

/-- What a call that reclaims a path says once the removal has ended so, and what it reports. -/
def afterRemoval (path : String) : Except IoError Unit → Except IoError Bool × List LogEvent
  | .ok () => (.ok true, [.staleSocketRemoved path])
  | .error e => (if e.kind = .notFound then .ok false else .error e, [])

/-- Removes a socket that stands at a path, and nothing else unless the path changes between the look and
the removal. The lock is shown, not checked. -/
def reclaim (path : String) (_lock : SocketLock) (s : Sockets) : Outcome (Except IoError Bool) :=
  if hasSocket path s then
    let (result, s) := remove path s
    let (answer, log) := afterRemoval path result
    ⟨answer, s, log⟩
  else ⟨.ok false, s, []⟩

def connect (path : String) (s : Sockets) : Outcome (Except IoError Endpoint) :=
  let (result, s) := s.connect path
  ⟨result, s, []⟩

/-- The next connection, if anybody has connected and connections can be accepted. -/
def accept (l : SocketListener) (s : Sockets) : Option (Outcome (Except IoError Endpoint)) :=
  match s.acceptFault with
  | some cause => some ⟨.error cause, s, []⟩
  | none => (s.accept l.entry).map fun (e, s) => ⟨.ok e, s, [.connectionAccepted l.path]⟩

/-- Removes what stands at the listener's path, and then releases the lock. -/
def closeListener (l : SocketListener) (s : Sockets) : Outcome Unit :=
  let (fs, log) :=
    match s.fs.unlink l.path with
    | .ok fs => (fs, [LogEvent.socketRemoved l.path])
    | .error e => (s.fs, if e.kind = .notFound then [] else [.socketNotRemoved l.path e])
  ⟨(), unlock l.lock ({ s with fs := fs }.unlisten l.entry), log⟩

end Transport

end EvidenceExchange
