import EvidenceExchange.Call
import EvidenceExchange.FileStep

namespace EvidenceExchange

inductive PeerAction where
  | file (step : FileStep)
  | probe
  | connect (path : String)
  | listen (path : String)
  | accept (limit : Nat)
  | write (data : Bytes)
  | shutdown
  | close
  | unlisten
  | readToEnd (limit : Nat)
  | cancelAll
  /-- Goes away from its stream like a process that is killed. -/
  | breakDown
  /-- From now on no connection can be accepted for the given reason, or again it can. -/
  | failAccepts (cause : Option IoError)

structure PeerStep where
  /-- The instant before which the step does not begin. -/
  notBefore : Nat
  action : PeerAction

inductive PeerAnswer where
  | done
  | failed
  | pending
  | noStream
  | noListener
  | fileStepFailed
  | files (listing : List (String × Node))
  | received (bytes : Bytes)

/-- A step that takes more than one move. -/
inductive PeerActivity where
  | idle
  | accepting (entry giveUpAt : Nat)
  | writing (stream : Endpoint) (rest : Bytes)
  | reading (stream : Endpoint) (earlier : Bytes) (giveUpAt : Nat)

/-- A raw peer, which goes through its steps with at most one stream and one listener of its own, and follows
no protocol. -/
structure Peer where
  steps : List PeerStep
  stream : Option Endpoint
  listener : Option Nat
  activity : PeerActivity
  answers : List (PeerAnswer × Nat)
  settled : Bool

/-- Who moves next, after a move at the same instant. -/
inductive NextTurn where
  /-- Whoever made the move, if it can, and then those after it. -/
  | same
  /-- Those after whoever made the move. -/
  | others
  /-- The first that can. -/
  | first
  deriving DecidableEq

/-- What a peer's move leaves. -/
structure PeerMove where
  peer : Peer
  sockets : Sockets
  /-- Whether every context of the exchange is cancelled. -/
  cancelsAll : Bool
  next : NextTurn

namespace Peer

def new (steps : List PeerStep) : Peer := ⟨steps, none, none, .idle, [], false⟩

def dropStream (p : Peer) (s : Sockets) : Sockets :=
  match p.stream with
  | some e => s.close e
  | none => s

def breakStream (p : Peer) (s : Sockets) : Sockets :=
  match p.stream with
  | some e => s.breakDown e
  | none => s

def dropListener (p : Peer) (s : Sockets) : Sockets :=
  match p.listener with
  | some entry => s.unlisten entry
  | none => s

/-- The peer after its present step has been answered. -/
def answer (p : Peer) (now : Nat) (a : PeerAnswer) : Peer :=
  { p with steps := p.steps.tail, activity := .idle, answers := p.answers ++ [(a, now)] }

def moved (p : Peer) (s : Sockets) : PeerMove := ⟨p, s, false, .same⟩

/-- The peer with a stream that it has just accepted: a write on it lets the others move before. -/
def accepted (p : Peer) (e : Endpoint) (now : Nat) (s : Sockets) : PeerMove :=
  let p' := { p with stream := some e }.answer now .done
  let next :=
    match p'.steps.map PeerStep.action with
    | .write _ :: _ => .others
    | _ => .same
  ⟨p', p.dropStream s, false, next⟩

/-- Begins a step, and answers it if it takes no more than this. -/
def begin (p : Peer) (now : Nat) (s : Sockets) : PeerAction → PeerMove
  | .file step =>
    let (succeeded, s) := s.applyFileStep step
    (p.answer now (if succeeded then .done else .fileStepFailed)).moved s
  | .probe => (p.answer now (.files s.fs.listing)).moved s
  | .connect path =>
    match s.connect path with
    | (.ok e, s) => ⟨{ p with stream := some e }.answer now .done, p.dropStream s, false, .first⟩
    | (.error _, s) => (p.answer now .failed).moved s
  | .listen path =>
    match s.bind path with
    | (.ok entry, s) => ({ p with listener := some entry }.answer now .done).moved (p.dropListener s)
    | (.error _, s) => (p.answer now .failed).moved s
  | .accept limit =>
    match p.listener with
    | some entry => { p with activity := .accepting entry (now + limit) }.moved s
    | none => (p.answer now .noListener).moved s
  | .write data =>
    match p.stream with
    | some e => { p with activity := .writing e data }.moved s
    | none => (p.answer now .noStream).moved s
  | .shutdown =>
    match p.stream with
    | some e => (p.answer now .done).moved (s.shutdownWrite e)
    | none => (p.answer now .noStream).moved s
  | .close => ({ p with stream := none }.answer now .done).moved (p.dropStream s)
  | .unlisten => ({ p with listener := none }.answer now .done).moved (p.dropListener s)
  | .readToEnd limit =>
    match p.stream with
    | some e => { p with activity := .reading e [] (now + limit) }.moved s
    | none => (p.answer now .noStream).moved s
  | .cancelAll => ⟨p.answer now .done, s, true, .same⟩
  | .breakDown => ({ p with stream := none }.answer now .done).moved (p.breakStream s)
  | .failAccepts cause => (p.answer now .done).moved { s with acceptFault := cause }

/-- After its last step a peer drops its stream and its listener. -/
def leave (p : Peer) (s : Sockets) : PeerMove :=
  { p with stream := none, listener := none, settled := true }.moved (p.dropListener (p.dropStream s))

/-- The next thing that the peer does at this instant, moving no more than `grain` bytes. -/
def move (p : Peer) (grain now : Nat) (s : Sockets) : Option PeerMove :=
  match p.activity with
  | .idle =>
    match p.steps with
    | [] => if p.settled then none else some (p.leave s)
    | step :: _ => if step.notBefore ≤ now then some (p.begin now s step.action) else none
  | .accepting entry giveUpAt =>
    match s.accept entry with
    | some (e, s) => some (p.accepted e now s)
    | none => if giveUpAt ≤ now then some ((p.answer now .pending).moved s) else none
  | .writing e rest =>
    match s.write e rest grain with
    | (.wrote count, s) =>
      match rest.drop count with
      | [] => some ((p.answer now .done).moved s)
      | rest => some ({ p with activity := .writing e rest }.moved s)
    | (.broken, s) => some ((p.answer now .failed).moved s)
    | (.blocked, _) => none
  | .reading e earlier giveUpAt =>
    match s.read e grain with
    | (.chunk bytes, s) => some ({ p with activity := .reading e (earlier ++ bytes) giveUpAt }.moved s)
    | (.atEnd, s) => some ((p.answer now (.received earlier)).moved s)
    | (.failed _, s) => some ((p.answer now .failed).moved s)
    | (.blocked, s) => if giveUpAt ≤ now then some ((p.answer now .pending).moved s) else none

def timers (p : Peer) : List Nat :=
  match p.activity with
  | .idle => (p.steps.head?.map PeerStep.notBefore).toList
  | .accepting _ giveUpAt | .reading _ _ giveUpAt => [giveUpAt]
  | .writing _ _ => []

end Peer

end EvidenceExchange
