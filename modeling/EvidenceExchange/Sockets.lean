import EvidenceExchange.Bytes
import EvidenceExchange.FileSystem

namespace EvidenceExchange

/-- One direction of a connection. -/
structure Pipe where
  /-- All bytes written so far. -/
  carried : Bytes
  /-- How many of them have been read. -/
  taken : Nat
  /-- Whether the writing side writes no more. -/
  ended : Bool
  /-- Whether the reading side reads no more. -/
  deaf : Bool
  /-- Whether the writing side went away without reading what was sent to it. -/
  reset : Bool
  deriving DecidableEq

namespace Pipe

def new : Pipe := ⟨[], 0, false, false, false⟩

/-- How many bytes a pipe holds that have not been read. -/
def capacity : Nat := 212992

/-- Enough to read or write all that a pipe can hold at once. -/
def wholeGrain : Nat := capacity

def unread (p : Pipe) : Bytes := p.carried.drop p.taken

def unreadCount (p : Pipe) : Nat := p.carried.length - p.taken

def write (p : Pipe) (chunk : Bytes) : Pipe := { p with carried := p.carried ++ chunk }

def take (p : Pipe) (count : Nat) : Pipe := { p with taken := p.taken + count }

end Pipe

inductive Side where
  | client
  | server
  deriving DecidableEq

def Side.other : Side → Side
  | client => server
  | server => client

/-- One end of a connection. -/
structure Endpoint where
  connection : Nat
  side : Side
  deriving DecidableEq

structure Connection where
  toServer : Pipe
  toClient : Pipe
  deriving DecidableEq

namespace Connection

def new : Connection := ⟨.new, .new⟩

/-- The pipe that a side writes to. -/
def outgoing (c : Connection) : Side → Pipe
  | .client => c.toServer
  | .server => c.toClient

def incoming (c : Connection) (side : Side) : Pipe := c.outgoing side.other

def setOutgoing (c : Connection) (side : Side) (p : Pipe) : Connection :=
  match side with
  | .client => { c with toServer := p }
  | .server => { c with toClient := p }

def setIncoming (c : Connection) (side : Side) (p : Pipe) : Connection :=
  c.setOutgoing side.other p

/-- A side goes away. Where bytes for it are left unread, the other side is told so. -/
def close (c : Connection) (side : Side) (abrupt : Bool) : Connection :=
  let unread := (c.incoming side).unreadCount
  let c := c.setIncoming side { c.incoming side with deaf := true }
  c.setOutgoing side
    { c.outgoing side with ended := true, reset := abrupt || decide (0 < unread) }

end Connection

/-- A bound socket, with the connections that nobody has accepted yet, the oldest first. -/
structure Listening where
  entry : Nat
  backlog : List Nat
  deriving DecidableEq

/-- A call on files that takes its time, and goes on when nobody waits for it any more. -/
inductive FileCall where
  | openFile (path : String)
  | unlink (path : String)
  deriving DecidableEq

def FileCall.apply (fs : FileSystem) : FileCall → FileSystem
  | openFile path =>
    match fs.openFile path with
    | .ok (_, fs) => fs
    | .error _ => fs
  | unlink path =>
    match fs.unlink path with
    | .ok fs => fs
    | .error _ => fs

/-- Stream sockets and file locks over a tree of files. A listener belongs to the entry that was made when it
was bound, under whatever name that is found later; a lock belongs to the entry of its file. -/
structure Sockets where
  fs : FileSystem
  /-- The entries of the files that are locked. -/
  locked : List Nat
  listening : List Listening
  connections : List Connection
  /-- Why the transport can accept no connection at present, if it cannot. -/
  acceptFault : Option IoError
  /-- The calls on files that are still under way although nobody waits for them. -/
  detached : List FileCall

namespace Sockets

def empty : Sockets := ⟨.empty, [], [], [], none, []⟩

/-- Nobody waits any longer for a call that is under way. -/
def detach (s : Sockets) (call : FileCall) : Sockets :=
  { s with detached := s.detached ++ [call] }

/-- A call that nobody waits for takes effect. -/
def carryOut (s : Sockets) (call : FileCall) : Sockets :=
  { s with fs := call.apply s.fs, detached := s.detached.erase call }

/-- The bytes that the address of a socket may have. -/
def maxAddress : Nat := 107

def checkAddress (path : String) : Except IoError Unit :=
  if FileSystem.hasNul path then .error .addressHasNul
  else if path.utf8ByteSize > maxAddress then .error .addressTooLong
  else .ok ()

/-- Makes a socket where nothing stands yet, and gives its entry. The empty path gives a socket
without a name. -/
def bindEntry (fs : FileSystem) (path : String) : Except IoError (Nat × FileSystem) := do
  checkAddress path
  if path.isEmpty then return (fs.fresh, { fs with fresh := fs.fresh + 1 })
  match fs.place path .socket with
  | .ok bound => .ok bound
  | .error e => .error (if e = .alreadyExists then .addressInUse else e)

def bind (s : Sockets) (path : String) : Except IoError Nat × Sockets :=
  match bindEntry s.fs path with
  | .error e => (.error e, s)
  | .ok (entry, fs) => (.ok entry, { s with fs := fs, listening := s.listening ++ [⟨entry, []⟩] })

def listener? (s : Sockets) (entry : Nat) : Option Listening :=
  s.listening.find? (·.entry == entry)

/-- The listener that a path leads to. -/
def target? (s : Sockets) (path : String) : Except IoError Listening := do
  checkAddress path
  if path.isEmpty then throw .invalidArgument
  match s.fs.resolve .target path with
  | .error e => .error e
  | .ok (.vacant _ _) => .error .noEntry
  | .ok (.within _) => .error .connectionRefused
  | .ok (.entry e) =>
    match e.node, s.listener? e.id with
    | .socket, some l => .ok l
    | _, _ => .error .connectionRefused

def setBacklog (s : Sockets) (entry : Nat) (backlog : List Nat) : Sockets :=
  { s with listening := s.listening.map fun l => if l.entry = entry then ⟨entry, backlog⟩ else l }

/-- Connects to the listener at a path; the connection is of use before it is accepted. -/
def connect (s : Sockets) (path : String) : Except IoError Endpoint × Sockets :=
  match s.target? path with
  | .error e => (.error e, s)
  | .ok l =>
    let id := s.connections.length
    (.ok ⟨id, .client⟩,
      { s.setBacklog l.entry (l.backlog ++ [id]) with connections := s.connections ++ [.new] })

/-- The oldest connection that waits at a listener. -/
def accept (s : Sockets) (entry : Nat) : Option (Endpoint × Sockets) :=
  match s.listener? entry with
  | some ⟨_, id :: rest⟩ => some (⟨id, .server⟩, s.setBacklog entry rest)
  | _ => none

def modifyConnection (s : Sockets) (id : Nat) (f : Connection → Connection) : Sockets :=
  { s with connections := s.connections.modify id f }

def close (s : Sockets) (e : Endpoint) : Sockets :=
  s.modifyConnection e.connection (·.close e.side false)

/-- A side breaks down. What it has written can still be read, and then the other side is told so. -/
def breakDown (s : Sockets) (e : Endpoint) : Sockets :=
  s.modifyConnection e.connection (·.close e.side true)

/-- The listener stops, and the connections that nobody accepted are reset. Its entry stays. -/
def unlisten (s : Sockets) (entry : Nat) : Sockets :=
  let waiting := ((s.listener? entry).map Listening.backlog).getD []
  let s := { s with listening := s.listening.filter (·.entry != entry) }
  waiting.foldl (fun s id => s.modifyConnection id (·.close .server true)) s

inductive WriteOutcome where
  | wrote (count : Nat)
  | blocked
  | broken

/-- Writes as much as there is room for, and no more than `grain` bytes. -/
def write (s : Sockets) (e : Endpoint) (data : Bytes) (grain : Nat) : WriteOutcome × Sockets :=
  match s.connections[e.connection]? with
  | none => (.broken, s)
  | some c =>
    let pipe := c.outgoing e.side
    if data.isEmpty then (.wrote 0, s)
    else if pipe.deaf || pipe.ended then (.broken, s)
    else
      let count := min (min data.length grain) (Pipe.capacity - pipe.unreadCount)
      if count = 0 then (.blocked, s)
      else
        (.wrote count,
          s.modifyConnection e.connection (·.setOutgoing e.side (pipe.write (data.take count))))

/-- Writes no more, and goes on reading. -/
def shutdownWrite (s : Sockets) (e : Endpoint) : Sockets :=
  s.modifyConnection e.connection fun c =>
    c.setOutgoing e.side { c.outgoing e.side with ended := true }

inductive ReadOutcome where
  | chunk (bytes : Bytes)
  | atEnd
  | blocked
  | failed (cause : IoError)

/-- Reads what is there, and no more than `grain` bytes. A reset shows after the last byte, once. -/
def read (s : Sockets) (e : Endpoint) (grain : Nat) : ReadOutcome × Sockets :=
  match s.connections[e.connection]? with
  | none => (.atEnd, s)
  | some c =>
    let pipe := c.incoming e.side
    let replace (p : Pipe) : Sockets := s.modifyConnection e.connection (·.setIncoming e.side p)
    match pipe.unread.take grain with
    | byte :: rest => (.chunk (byte :: rest), replace (pipe.take (rest.length + 1)))
    | [] =>
      if 0 < pipe.unreadCount then (.blocked, s)
      else if pipe.reset then (.failed .connectionReset, replace { pipe with reset := false })
      else if pipe.ended then (.atEnd, s)
      else (.blocked, s)

end Sockets

end EvidenceExchange
