import EvidenceExchange.Retry

namespace EvidenceExchange

structure PlannedAttempt (α : Type) where
  /-- How long the attempt takes, if it takes any time. -/
  after : Option Duration
  hangs : Bool
  outcome : Except String α

/-- An attempt that has been called, or polled as well and then ready at some instant, if ever. -/
inductive PlannedWork where
  | called (index : Nat)
  | running (index : Nat) (ready : Option Nat)

/-- How often an attempt was called, and the instants at which attempts were first polled. -/
structure RehearsalRecord where
  calls : Nat
  polledAt : List Nat

namespace PlannedAttempt

variable {α : Type}

/-- The attempt of the given number, counted from zero; the last one of a plan repeats. -/
def nth (plan : List (PlannedAttempt α)) (index : Nat) : Option (PlannedAttempt α) :=
  plan[min index (plan.length - 1)]?

def readyAt (plan : List (PlannedAttempt α)) (index now : Nat) : Option Nat :=
  match nth plan index with
  | none => none
  | some a =>
    if a.hangs then none
    else some ((a.after.map fun d => ((Instant.ofMillis now).afterWait d).tick).getD now)

def poll (plan : List (PlannedAttempt α)) (now : Nat) :
    PlannedWork → RehearsalRecord → AttemptPoll RehearsalRecord PlannedWork α String
  | .called index, r =>
    .progress (.running index (readyAt plan index now)) { r with polledAt := r.polledAt ++ [now] }
  | .running index ready, r =>
    match ready, nth plan index with
    | some t, some a => if t ≤ now then .finished a.outcome r else .waiting
    | _, _ => .waiting

def operation (plan : List (PlannedAttempt α)) :
    Operation RehearsalRecord PlannedWork α String where
  call r := (.called r.calls, { r with calls := r.calls + 1 })
  poll := poll plan
  timers
    | .called _ => []
    | .running _ ready => ready.toList
  describe := id

end PlannedAttempt

/-- A retry of attempts whose lengths and outcomes are laid down beforehand. -/
structure Rehearsal (α : Type) where
  plan : List (PlannedAttempt α)
  policy : RetryPolicy
  context : Context
  tokens : Tokens
  cancels : List TimedCancel
  retry : Retry PlannedWork α String
  record : RehearsalRecord
  log : List LogEvent

namespace Rehearsal

variable {α : Type}

def moveRetry (now : Nat) (r : Rehearsal α) : Option (Rehearsal α) :=
  (r.retry.move (PlannedAttempt.operation r.plan) r.policy r.context r.tokens now r.record).map
    fun (retry, record, events) =>
      { r with retry := retry, record := record, log := r.log ++ events }

def moveCancel (first : Bool) (now : Nat) (r : Rehearsal α) : Option (Rehearsal α) :=
  (TimedCancel.takeEffect? first now r.tokens r.cancels).map fun (tokens, cancels) =>
    { r with tokens := tokens, cancels := cancels }

def clockwork : Clockwork (Rehearsal α) where
  move now r :=
    if r.retry.isOver then none
    else moveCancel true now r <|> moveRetry now r <|> moveCancel false now r
  timers r :=
    if r.retry.isOver then []
    else r.retry.timers (PlannedAttempt.operation r.plan) r.context ++ r.cancels.map TimedCancel.time

/-- Every attempt is called, polled twice and followed by a pause, with a jump of the clock before
each of them. -/
def fuel (r : Rehearsal α) : Nat := 8 * r.policy.maxAttempts + 2 * r.cancels.length + 8

/-- The instant at which the retries end, and how they end. -/
def run (now : Nat) (r : Rehearsal α) : Nat × Rehearsal α :=
  clockwork.run r.fuel (now, r)

end Rehearsal

end EvidenceExchange
