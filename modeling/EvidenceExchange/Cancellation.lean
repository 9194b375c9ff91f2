namespace EvidenceExchange

/-- Why a context has ended. -/
inductive Cancellation where
  | cancelled
  | deadlineExceeded
  deriving DecidableEq

def Cancellation.name : Cancellation → String
  | cancelled => "Cancelled"
  | deadlineExceeded => "DeadlineExceeded"

/-- A token, with the tokens that it is derived from, the nearest first. -/
structure Token where
  id : Nat
  ancestors : List Nat
  deriving DecidableEq

/-- Which tokens there are, and which of them `cancel` was called on. -/
structure Tokens where
  fresh : Nat
  cancelled : List Nat
  deriving DecidableEq

namespace Tokens

def empty : Tokens := ⟨0, []⟩

def new (ts : Tokens) : Token × Tokens :=
  (⟨ts.fresh, []⟩, { ts with fresh := ts.fresh + 1 })

def child (ts : Tokens) (t : Token) : Token × Tokens :=
  (⟨ts.fresh, t.id :: t.ancestors⟩, { ts with fresh := ts.fresh + 1 })

def cancel (ts : Tokens) (t : Token) : Tokens :=
  { ts with cancelled := t.id :: ts.cancelled }

def isCancelled (ts : Tokens) (t : Token) : Bool :=
  (t.id :: t.ancestors).any fun i => ts.cancelled.contains i

end Tokens

/-- A cancel that comes at some instant: before what else happens then, or after it. -/
structure TimedCancel where
  time : Nat
  first : Bool
  token : Token
  deriving DecidableEq

namespace TimedCancel

/-- The first cancel of its sort that is due, and those that are left. -/
def due? (first : Bool) (now : Nat) : List TimedCancel → Option (TimedCancel × List TimedCancel)
  | [] => none
  | c :: rest =>
    if c.first = first ∧ c.time ≤ now then some (c, rest)
    else (due? first now rest).map fun (d, left) => (d, c :: left)

/-- Each cancel that is due takes effect by itself. -/
def takeEffect? (first : Bool) (now : Nat) (ts : Tokens) (cancels : List TimedCancel) :
    Option (Tokens × List TimedCancel) :=
  (due? first now cancels).map fun (c, left) => (ts.cancel c.token, left)

end TimedCancel

end EvidenceExchange
