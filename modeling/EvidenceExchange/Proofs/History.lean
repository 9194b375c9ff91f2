import EvidenceExchange.Sockets
import Mathlib

namespace EvidenceExchange

/-- The openers of the connections in their order, and who accepted which of them. -/
structure History where
  openers : List Nat
  accepted : List (Nat × Nat)

namespace History

def empty : History := ⟨[], []⟩

/-- The history after a move of an actor, with the stream that it had before and has now. -/
def next (h : History) (i : Nat) (s s' : Sockets) (old new : Option Endpoint) : History where
  openers := if s.connections.length < s'.connections.length then h.openers ++ [i] else h.openers
  accepted :=
    match new with
    | some ⟨c, .server⟩ => if new = old then h.accepted else h.accepted ++ [(i, c)]
    | _ => h.accepted

def opens (h : History) (i : Nat) : History := { h with openers := h.openers ++ [i] }

def accepts (h : History) (i c : Nat) : History := { h with accepted := h.accepted ++ [(i, c)] }

/-- What a move of an actor can make of the history. -/
inductive Becomes (h : History) (i : Nat) (old new : Option Endpoint) : History → Prop
  | same (kept : ∀ c, new = some ⟨c, .server⟩ → new = old) : Becomes h i old new h
  | opened (kept : ∀ c, new = some ⟨c, .server⟩ → new = old) : Becomes h i old new (h.opens i)
  | accepted {c} (here : new = some ⟨c, .server⟩) (unknown : new ≠ old) :
      Becomes h i old new (h.accepts i c)

/-- An actor has been given an end of a connection. -/
def Gave (h : History) (i : Nat) (e : Endpoint) : Prop :=
  match e.side with
  | .client => h.openers[e.connection]? = some i
  | .server => (i, e.connection) ∈ h.accepted

def OpenedNone (h : History) (i : Nat) : Prop := ∀ c : Nat, h.openers[c]? ≠ some i

/-- The only connection that an actor has opened. -/
def OpenedOnly (h : History) (i c : Nat) : Prop := ∀ c' : Nat, h.openers[c']? = some i ↔ c' = c

def AcceptedNone (h : History) (i : Nat) : Prop := ∀ c, (i, c) ∉ h.accepted

/-- The only connection that an actor has accepted. -/
def AcceptedOnly (h : History) (i c : Nat) : Prop := ∀ c', (i, c') ∈ h.accepted ↔ c' = c

variable {h : History} {i k c c' : Nat} {e : Endpoint}

theorem getElem?_opens : (h.opens i).openers[c]? = some k ↔
    h.openers[c]? = some k ∨ c = h.openers.length ∧ k = i := by
  obtain hc | hc := lt_or_ge c h.openers.length
  · rw [opens, List.getElem?_append_left hc]
    simp [hc.ne]
  · rw [opens, List.getElem?_append_right hc, List.getElem?_eq_none hc, List.getElem?_singleton]
    by_cases heq : c = h.openers.length
    · simp [heq, eq_comm]
    · simp [heq, show c - h.openers.length ≠ 0 by omega]

theorem mem_accepts :
    (k, c') ∈ (h.accepts i c).accepted ↔ (k, c') ∈ h.accepted ∨ c' = c ∧ k = i := by
  simp [accepts, and_comm]

theorem gave_opens :
    (h.opens i).Gave k e ↔ h.Gave k e ∨ e = ⟨h.openers.length, .client⟩ ∧ k = i := by
  obtain ⟨c, side⟩ := e
  cases side with
  | client => simp [Gave, getElem?_opens]
  | server => simp [Gave, opens]

theorem gave_accepts : (h.accepts i c).Gave k e ↔ h.Gave k e ∨ e = ⟨c, .server⟩ ∧ k = i := by
  obtain ⟨c', side⟩ := e
  cases side with
  | client => simp [Gave, accepts]
  | server => simp [Gave, mem_accepts]

theorem OpenedNone.opens (none : h.OpenedNone k) : (h.opens k).OpenedOnly k h.openers.length := by
  intro c
  rw [getElem?_opens, or_iff_right (none c), and_iff_left rfl]

theorem AcceptedNone.accepts (none : h.AcceptedNone k) (c : Nat) :
    (h.accepts k c).AcceptedOnly k c := by
  intro c'
  rw [mem_accepts, or_iff_right (none c'), and_iff_left rfl]

/-- A client is the only one to open its connection. -/
theorem client_unique (hi : h.Gave i ⟨c, .client⟩) (hk : h.Gave k ⟨c, .client⟩) : k = i :=
  Option.some.inj (hk.symm.trans hi)

end History

end EvidenceExchange
