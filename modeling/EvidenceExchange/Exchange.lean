import EvidenceExchange.Clock
import EvidenceExchange.Peer
import EvidenceExchange.Receiver
import EvidenceExchange.Sender

namespace EvidenceExchange

inductive Role where
  | receiver (r : Receiver)
  | sender (d : Sender)
  | peer (p : Peer)

structure Actor where
  start : Nat
  role : Role
  /-- The instant at which the call is dropped if it has not returned. -/
  abortAt : Option Nat
  log : List LogEvent
  endedAt : Option Nat

/-- Receivers, senders and raw peers side by side on one clock, around one tree of files. -/
structure Exchange where
  /-- The token that every context of the exchange is derived from. -/
  root : Token
  tokens : Tokens
  cancels : List TimedCancel
  sockets : Sockets
  actors : List Actor
  /-- The number of the actor that is the next to have the turn, and the instant at which it is. -/
  turn : Option (Nat × Nat)

/-- What an actor's move leaves. -/
structure RoleMove where
  role : Role
  sockets : Sockets
  log : List LogEvent
  /-- Whether every context of the exchange is cancelled. -/
  cancelsAll : Bool
  next : NextTurn

namespace Role

def isOver : Role → Bool
  | receiver r => r.isOver
  | sender d => d.isOver
  | peer p => p.settled

def timers : Role → List Nat
  | receiver r => r.timers
  | sender d => d.timers
  | peer p => p.timers

/-- A receiver that has done something. While it waits for the files, the others may move. -/
def ofReceiver (o : Outcome Receiver) : RoleMove :=
  ⟨receiver o.value, o.sockets, o.log, false, if o.value.waitsForFiles then .others else .first⟩

def move (role : Role) (grain : Nat) (ts : Tokens) (now : Nat) (s : Sockets) : Option RoleMove :=
  match role with
  | receiver r => (r.move grain ts now s).map ofReceiver
  | sender d => (d.move grain ts now s).map fun o => ⟨sender o.value, o.sockets, o.log, false, .first⟩
  | peer p => (p.move grain now s).map fun m => ⟨peer m.peer, m.sockets, [], m.cancelsAll, m.next⟩

def abort (role : Role) (s : Sockets) : RoleMove :=
  match role with
  | receiver r => ofReceiver (r.abort s)
  | sender d =>
    let o := d.abort s
    ⟨sender o.value, o.sockets, o.log, false, .first⟩
  | peer p => ⟨peer p, s, [], false, .first⟩

end Role

namespace Actor

def isOver (a : Actor) : Bool := a.role.isOver

/-- The actor after a move, with the instant at which its call ended if this move ended it. -/
def after (a : Actor) (now : Nat) (m : RoleMove) : Actor :=
  { a with
    role := m.role, log := a.log ++ m.log,
    endedAt := if m.role.isOver then a.endedAt <|> some now else none }

def timers (a : Actor) : List Nat :=
  if a.isOver then [] else a.start :: a.role.timers ++ a.abortAt.toList

end Actor

namespace Exchange

/-- The exchange after the move of one of its actors. -/
def settle (x : Exchange) (i now : Nat) (a : Actor) (m : RoleMove) : Exchange :=
  { x with
    sockets := m.sockets,
    tokens := if m.cancelsAll then x.tokens.cancel x.root else x.tokens,
    actors := x.actors.set i (a.after now m),
    turn :=
      match m.next with
      | .same => some (i, now)
      | .others => some (i + 1, now)
      | .first => none }

def cancel? (x : Exchange) (first : Bool) (now : Nat) : Option Exchange :=
  (TimedCancel.takeEffect? first now x.tokens x.cancels).map fun (tokens, cancels) =>
    { x with tokens := tokens, cancels := cancels }

/-- The next thing that one actor does at this instant, moving no more than `grain` bytes. -/
def act? (x : Exchange) (grain now : Nat) (a : Actor) (i : Nat) : Option Exchange :=
  if a.start ≤ now then (a.role.move grain x.tokens now x.sockets).map (x.settle i now a) else none

def abort? (x : Exchange) (now : Nat) (a : Actor) (i : Nat) : Option Exchange :=
  if !a.isOver && decide (a.start ≤ now) && a.abortAt.any (· ≤ now) then
    some (x.settle i now a (a.role.abort x.sockets))
  else none

/-- The oldest call that nobody waits for takes effect. -/
def carryOut? (x : Exchange) : Option Exchange :=
  x.sockets.detached.head?.map fun call => { x with sockets := x.sockets.carryOut call }

/-- The number of the actor that has the turn at this instant. -/
def turnAt (x : Exchange) (now : Nat) : Nat :=
  match x.turn with
  | some (i, instant) => if instant = now then i else 0
  | none => 0

/-- What is left by the first actor for which something can be done, beginning with the one of the given
number. -/
def firstFrom (x : Exchange) (start : Nat) (f : Actor → Nat → Option Exchange) : Option Exchange :=
  let numbered := x.actors.zipIdx
  (numbered.drop start ++ numbered.take start).findSome? fun (a, i) => f a i

/-- Calls are dropped only when nothing else can be done at the instant. -/
def clockwork : Clockwork Exchange where
  move now x :=
    x.cancel? true now <|> x.firstFrom (x.turnAt now) (x.act? Pipe.wholeGrain now) <|> x.carryOut? <|>
      x.cancel? false now <|> x.firstFrom 0 (x.abort? now)
  timers x := x.cancels.map TimedCancel.time ++ x.actors.flatMap Actor.timers

def total {α : Type} (weight : α → Nat) (xs : List α) : Nat :=
  xs.foldl (fun n a => n + weight a) 0

def stepWeight (step : PeerStep) : Nat :=
  match step.action with
  | .write data => 8 + data.length
  | _ => 8

/-- A bound on the moves of an actor, the reading of what others write apart. -/
def roleWeight : Role → Nat
  | .receiver _ => 16
  | .sender d =>
    8 * d.config.retryPolicy.maxAttempts + 32 +
      total (fun p => 10 + p.data.length + p.signature.length) d.bundle
  | .peer p => total stepWeight p.steps + 8

/-- Every byte is written once and read once, and the clock jumps between moves. -/
def fuel (x : Exchange) : Nat :=
  8 * total (fun a => roleWeight a.role) x.actors + 8 * x.actors.length + 2 * x.cancels.length + 8

/-- Runs the exchange from instant zero until nothing is left to do. -/
def run (x : Exchange) : Exchange :=
  (clockwork.run x.fuel (0, x)).2

/-- Runs the exchange from instant zero, and gives up on what is left to do after an instant. -/
def watch (x : Exchange) (limit : Nat) : Exchange :=
  (clockwork.runUntil limit x.fuel (0, x)).2

def isOver (x : Exchange) : Bool := x.actors.all Actor.isOver

end Exchange

end EvidenceExchange
