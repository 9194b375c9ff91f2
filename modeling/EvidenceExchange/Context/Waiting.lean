import EvidenceExchange.Clock
import EvidenceExchange.Context

namespace EvidenceExchange

/-- Work that is ready from some instant on, if ever. -/
structure Work (α : Type) where
  ready : Option Nat
  value : α

inductive WaitOutcome (α : Type) where
  | ended (cause : Cancellation)
  | finished (value : α)
  | gaveUp

/-- A wait under a context: for its end, or for work that the end of the context wins against. -/
structure Waiting (α : Type) where
  context : Context
  /-- The work waited for; without it the wait is for the end of the context alone. -/
  work : Option (Work α)
  giveUpAt : Nat
  cancels : List TimedCancel
  tokens : Tokens
  polled : Bool
  outcome : Option (WaitOutcome α)

namespace Waiting

variable {α : Type}

def settle (w : Waiting α) (o : WaitOutcome α) : Waiting α := { w with outcome := some o }

/-- One poll of the race between the end of the context, which comes first, and the work. -/
def poll (now : Nat) (w : Waiting α) : Option (Waiting α) :=
  match w.context.pollDone w.tokens now with
  | some cause => some (w.settle (.ended cause))
  | none =>
    match w.work with
    | none => none
    | some work =>
      if work.ready.any (· ≤ now) then some { w.settle (.finished work.value) with polled := true }
      else if w.polled then none
      else some { w with polled := true }

/-- Work is not polled for the first time before the context has been asked whether it has ended. -/
def moveWait (now : Nat) (w : Waiting α) : Option (Waiting α) :=
  if w.work.isSome && !w.polled then
    match w.context.ended? w.tokens now with
    | some cause => some (w.settle (.ended cause))
    | none => w.poll now
  else w.poll now

def moveCancel (first : Bool) (now : Nat) (w : Waiting α) : Option (Waiting α) :=
  (TimedCancel.takeEffect? first now w.tokens w.cancels).map fun (tokens, cancels) =>
    { w with tokens := tokens, cancels := cancels }

def giveUp (now : Nat) (w : Waiting α) : Option (Waiting α) :=
  if w.giveUpAt ≤ now then some (w.settle .gaveUp) else none

/-- At one instant the wait comes before giving it up, and giving it up before a cancel that is not the
first thing then. -/
def clockwork : Clockwork (Waiting α) where
  move now w :=
    if w.outcome.isSome then none
    else moveCancel true now w <|> moveWait now w <|> giveUp now w <|> moveCancel false now w
  timers w :=
    if w.outcome.isSome then []
    else
      w.giveUpAt :: w.context.timers ++ (w.work.bind Work.ready).toList ++
        w.cancels.map TimedCancel.time

/-- A jump of the clock and a move for each timer, and the first poll. -/
def fuel (w : Waiting α) : Nat := 2 * w.cancels.length + 8

def run (now : Nat) (w : Waiting α) : Nat × Waiting α :=
  clockwork.run w.fuel (now, w)

end Waiting

end EvidenceExchange
