import EvidenceExchange.Clock
import EvidenceExchange.Context
import EvidenceExchange.Log
import EvidenceExchange.RetryPolicy

namespace EvidenceExchange

/-- What one poll of an attempt gives. -/
inductive AttemptPoll (σ φ α ε : Type) where
  /-- Nothing can be done at this instant. -/
  | waiting
  | progress (work : φ) (world : σ)
  | finished (result : Except ε α) (world : σ)

/-- An operation that can be attempted any number of times. -/
structure Operation (σ φ α ε : Type) where
  call : σ → φ × σ
  poll : Nat → φ → σ → AttemptPoll σ φ α ε
  timers : φ → List Nat
  describe : ε → String

inductive RetryError (ε : Type) where
  | ended (cause : Cancellation)
  | exhausted (attempts : Nat) (last : ε)

/-- Where a repeated operation stands. -/
inductive Retry (φ α ε : Type) where
  | calling (attempt : Nat)
  | trying (attempt : Nat) (work : φ)
  | pausing (attempt : Nat) (wake : Nat)
  | settled (result : Except (RetryError ε) α)

namespace Retry

variable {σ φ α ε : Type}

def start : Retry φ α ε := calling 1

/-- After a failed attempt: the end, if it was the last one, and otherwise a pause. -/
def afterFailure (op : Operation σ φ α ε) (policy : RetryPolicy) (now attempt : Nat) (e : ε) :
    Retry φ α ε × LogEvent :=
  if policy.maxAttempts ≤ attempt then
    (settled (.error (.exhausted attempt e)), .lastAttemptFailed attempt (op.describe e))
  else
    (pausing attempt ((Instant.ofMillis now).afterWait policy.interval).tick,
      .attemptFailed attempt policy.maxAttempts policy.delayMillis (op.describe e))

/-- The next thing that can be done at this instant. -/
def move (op : Operation σ φ α ε) (policy : RetryPolicy) (c : Context) (ts : Tokens) (now : Nat) :
    Retry φ α ε → σ → Option (Retry φ α ε × σ × List LogEvent)
  | calling attempt, world =>
    let (work, world) := op.call world
    match c.ended? ts now with
    | some cause => some (settled (.error (.ended cause)), world, [])
    | none => some (trying attempt work, world, [])
  | trying attempt work, world =>
    match c.pollDone ts now with
    | some cause => some (settled (.error (.ended cause)), world, [])
    | none =>
      match op.poll now work world with
      | .waiting => none
      | .progress work world => some (trying attempt work, world, [])
      | .finished (.ok a) world => some (settled (.ok a), world, [])
      | .finished (.error e) world =>
        let (next, event) := afterFailure op policy now attempt e
        some (next, world, [event])
  | pausing attempt wake, world =>
    match c.pollDone ts now with
    | some cause => some (settled (.error (.ended cause)), world, [])
    | none => if wake ≤ now then some (calling (attempt + 1), world, []) else none
  | settled _, _ => none

def timers (op : Operation σ φ α ε) (c : Context) : Retry φ α ε → List Nat
  | calling _ | settled _ => []
  | trying _ work => c.timers ++ op.timers work
  | pausing _ wake => wake :: c.timers

def isOver : Retry φ α ε → Bool
  | settled _ => true
  | _ => false

end Retry

end EvidenceExchange
