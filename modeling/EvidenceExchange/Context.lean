import EvidenceExchange.Cancellation
import EvidenceExchange.Duration

namespace EvidenceExchange

/-- A context ends when its token is cancelled or its deadline has passed, and the token wins. What it shows
when asked and what a wait for its end gives when polled are two definitions, `ended?` and `pollDone`. -/
structure Context where
  token : Token
  deadline : Option Instant
  deriving DecidableEq

namespace Context

def ofToken (t : Token) : Context := ⟨t, none⟩

/-- The context with the earlier of its deadline and the given one. -/
def withDeadline (c : Context) (d : Instant) : Context :=
  { c with deadline := some ((c.deadline.map (Instant.min · d)).getD d) }

/-- The context with a deadline so long from now, if that instant is representable. -/
def withTimeout? (c : Context) (now : Nat) (d : Duration) : Option Context :=
  ((Instant.ofMillis now).add? d).map c.withDeadline

/-- A context with a derived token and the same deadline. -/
def child (c : Context) (ts : Tokens) : Context × Tokens :=
  let (t, ts) := ts.child c.token
  ({ c with token := t }, ts)

def cancel (c : Context) (ts : Tokens) : Tokens :=
  ts.cancel c.token

/-- Why the context has ended by now, if it has. The present instant is a whole millisecond of the clock. -/
def ended? (c : Context) (ts : Tokens) (now : Nat) : Option Cancellation :=
  if ts.isCancelled c.token then some .cancelled
  else if c.deadline.any (·.nanos ≤ (Instant.ofMillis now).nanos) then some .deadlineExceeded
  else none

/-- The poll of a timer. -/
def timerFired (t : Instant) (now : Nat) : Bool := t.tick ≤ now

/-- One poll of a wait for the end of the context: its token first, and then the timer of its
deadline if it has one. -/
def pollDone (c : Context) (ts : Tokens) (now : Nat) : Option Cancellation :=
  match c.deadline with
  | none => if ts.isCancelled c.token then some .cancelled else none
  | some d =>
    if ts.isCancelled c.token then some .cancelled
    else if timerFired d now then some .deadlineExceeded
    else none

/-- The two views of a context agree at every instant of the clock. -/
theorem pollDone_eq_ended? (c : Context) (ts : Tokens) (now : Nat) :
    c.pollDone ts now = c.ended? ts now := by
  unfold pollDone ended? timerFired
  cases c.deadline <;> simp [Instant.tick_le_iff]

/-- The timers that a wait for the end of the context sets. -/
def timers (c : Context) : List Nat :=
  c.deadline.toList.map Instant.tick

end Context

end EvidenceExchange
