import EvidenceExchange.Context.Waiting

namespace EvidenceExchange

structure NamedContexts where
  now : Nat
  tokens : Tokens
  contexts : List (String × Context)

namespace NamedContexts

def empty : NamedContexts := ⟨0, .empty, []⟩

def find? (s : NamedContexts) (name : String) : Option Context :=
  s.contexts.lookup name

/-- Gives a context a name, which no other context has any longer. -/
def put (s : NamedContexts) (name : String) (c : Context) : NamedContexts :=
  { s with contexts := (name, c) :: s.contexts.filter (·.1 != name) }

inductive Change where
  | new (name : String)
  | clone (source name : String)
  | child (source name : String)
  | ofToken (source name : String)
  | withDeadline (source name : String) (deadline : Instant)
  | withTimeout (source name : String) (timeout : Duration)
  | cancel (source : String)
  | advance (length : Duration)

/-- Derives a named context from another one; nothing happens if there is no such context. -/
def derive (s : NamedContexts) (source name : String) (f : Context → Context) : NamedContexts :=
  match s.find? source with
  | some c => s.put name (f c)
  | none => s

/-- Only a timeout can fail: one that ends at no representable instant. -/
def apply (s : NamedContexts) : Change → Option NamedContexts
  | .new name =>
    let (t, ts) := s.tokens.new
    some ({ s with tokens := ts }.put name (.ofToken t))
  | .clone source name => some (s.derive source name id)
  | .child source name =>
    match s.find? source with
    | some c =>
      let (c, ts) := c.child s.tokens
      some ({ s with tokens := ts }.put name c)
    | none => some s
  | .ofToken source name => some (s.derive source name fun c => .ofToken c.token)
  | .withDeadline source name deadline => some (s.derive source name (·.withDeadline deadline))
  | .withTimeout source name timeout =>
    match s.find? source with
    | some c => (c.withTimeout? s.now timeout).map (s.put name)
    | none => some s
  | .cancel source =>
    match s.find? source with
    | some c => some { s with tokens := c.cancel s.tokens }
    | none => some s
  | .advance length => some { s with now := ((Instant.ofMillis s.now).afterWait length).tick }

/-- What is waited for. -/
inductive Wait where
  | done
  | sleep (length : Duration)
  | run (after : Option Duration) (hangs : Bool)

/-- The work that stands for the wait, started at the given instant. -/
def Wait.work (now : Nat) : Wait → Option (Work Unit)
  | done => none
  | sleep length => some ⟨some ((Instant.ofMillis now).afterWait length).tick, ()⟩
  | run after hangs =>
    if hangs then some ⟨none, ()⟩
    else some ⟨some ((after.map fun d => ((Instant.ofMillis now).afterWait d).tick).getD now), ()⟩

/-- Waits under a context, and gives the outcome and whether the work was ever polled. -/
def wait (s : NamedContexts) (c : Context) (what : Wait) (limit : Nat)
    (cancels : List TimedCancel) : NamedContexts × Option (WaitOutcome Unit) × Bool :=
  let (now, w) := Waiting.run s.now {
    context := c, work := what.work s.now, giveUpAt := s.now + limit, cancels := cancels,
    tokens := s.tokens, polled := false, outcome := none }
  ({ s with now := now, tokens := w.tokens }, w.outcome, w.polled)

end NamedContexts

end EvidenceExchange
