import EvidenceExchange.Proofs.Interleaving
import EvidenceExchange.Proofs.Traffic

namespace EvidenceExchange

/-- The end of a connection that a call reads from. -/
def Receiver.stream? (r : Receiver) : Option Endpoint :=
  match r.phase with
  | .reading stream _ _ => some stream
  | _ => none

/-- The end of a connection that a call writes to. -/
def Sender.stream? (d : Sender) : Option Endpoint :=
  match d.phase with
  | .writing _ stream _ => some stream
  | _ => none

def Role.stream? : Role → Option Endpoint
  | receiver r => r.stream?
  | sender d => d.stream?
  | peer p => p.stream

namespace History

/-- The number of the connections tells whether one has been opened. -/
theorem next_of_becomes {h h' : History} {i : Nat} {s s' : Sockets} {old new : Option Endpoint}
    (becomes : h.Becomes i old new h') (sound : s.Sound h) (sound' : s'.Sound h') :
    h.next i s s' old new = h' := by
  have length := sound.openers
  have length' := sound'.openers
  rw [Sockets.length_wires] at length length'
  unfold next
  cases becomes with
  | same kept =>
    rw [if_neg (by omega)]
    split
    next c => rw [if_pos (kept c rfl)]
    next => rfl
  | opened kept =>
    rw [opens, List.length_append, List.length_singleton] at length'
    rw [if_pos (by omega), opens]
    split
    next c => rw [if_pos (kept c rfl)]
    next => rfl
  | accepted here unknown =>
    dsimp only [accepts] at length'
    rw [if_neg (by omega), here]
    simp only [if_neg (here ▸ unknown), accepts]

end History

namespace Exchange

def stream? (x : Exchange) (i : Nat) : Option Endpoint := x.actors[i]?.bind (·.role.stream?)

/-- A run, with the history that its steps make. -/
inductive Recorded (a : Nat × Exchange) : History → Nat × Exchange → Prop
  | start : Recorded a .empty a
  | idle {h b c} (run : Recorded a h b) (step : Step none b c) : Recorded a h c
  | move {h b c i} (run : Recorded a h b) (step : Step (some i) b c) :
      Recorded a (h.next i b.2.sockets c.2.sockets (b.2.stream? i) (c.2.stream? i)) c

theorem exists_recorded {a b : Nat × Exchange} (run : Run (fun _ _ _ => True) a b) :
    ∃ h, Recorded a h b := by
  induction run with
  | refl => exact ⟨.empty, .start⟩
  | tail _ step ih =>
    obtain ⟨h, recorded⟩ := ih
    obtain ⟨mover, step, -⟩ := step
    cases mover with
    | none => exact ⟨h, .idle recorded step⟩
    | some i => exact ⟨_, .move recorded step⟩

end Exchange

end EvidenceExchange
