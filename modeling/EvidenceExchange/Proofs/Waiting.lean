import EvidenceExchange.Proofs.Arrival
import EvidenceExchange.Proofs.Moves.Receiver

namespace EvidenceExchange

namespace Receiver

/-- What a receive comes to once its frame is read. -/
def conclusion (r : Receiver) : Except FrameError Bytes → Except ExchangeError Evidence.Bundle
  | .error e => .error (.ofFrame e)
  | .ok payload => (r.codec.decode payload).mapError .decode

/-- What the input so far makes of an exchange, if it decides it: a failure of accepting, or the frame
that comes over the stream that is accepted or the next to be. -/
def input? (r : Receiver) (s : Sockets) : Option (Except ExchangeError Evidence.Bundle) :=
  match r.phase with
  | .accepting l _ =>
    match s.acceptFault with
    | some cause => some (.error (.io cause))
    | none => (s.accept l.entry).bind fun (stream, _) => (s.frame? stream []).map r.conclusion
  | .reading stream _ reader =>
    (s.frame? stream (reader.codec.held reader.buffer.toList)).map r.conclusion
  | _ => none

/-- A receiver that is bound or has accepted, with its deadline. -/
def WaitsUntil (r : Receiver) (deadline : Instant) : Prop :=
  (∃ l, r.phase = .accepting l deadline) ∨ ∃ stream reader, r.phase = .reading stream deadline reader

/-- Nothing has decided the exchange of a receiver, and its deadline is yet to come. -/
structure Undecided (r : Receiver) (deadline : Instant) (ts : Tokens) (now : Nat) (s : Sockets) :
    Prop where
  live : r.context.ended? ts now = none
  input : r.input? s = none
  early : now < deadline.tick

/-- What an exchange ends with at an instant. -/
inductive Ends (r : Receiver) (deadline : Instant) (ts : Tokens) (now : Nat) (s : Sockets) :
    Except ExchangeError Evidence.Bundle → Prop
  | context {cause} (ended : r.context.ended? ts now = some cause) :
      Ends r deadline ts now s (.error (.ofCancellation cause))
  | input {result} (live : r.context.ended? ts now = none) (decided : r.input? s = some result) :
      Ends r deadline ts now s result
  | timeout (live : r.context.ended? ts now = none) (undecided : r.input? s = none)
      (due : now = deadline.tick) : Ends r deadline ts now s (.error (.timeout r.config.timeout))

/-- A receiver that reads has room for what it reads next. -/
def Prepared (r : Receiver) : Prop :=
  ∀ {stream deadline reader}, r.phase = .reading stream deadline reader →
    reader.Ready (reader.codec.held reader.buffer.toList)

variable {r : Receiver} {deadline : Instant} {ts : Tokens} {now grain : Nat} {s : Sockets}
  {o : Outcome Receiver}

/-- What a poll leaves of a receiver that goes on waiting: its deadline, and what it has come to. -/
structure Goes (r : Receiver) (deadline : Instant) (s : Sockets) (o : Outcome Receiver) : Prop where
  waits : o.value.WaitsUntil deadline
  prepared : o.value.Prepared
  input : o.value.input? o.sockets = r.input? s

theorem decide_phase (r : Receiver) (result : Except FrameError Bytes) (s : Sockets) :
    (r.decide result s).value.phase = .settled (.returned (r.conclusion result)) := by
  unfold Receiver.decide
  cases result with
  | error e => rfl
  | ok payload =>
    simp only [Receiver.decode, conclusion]
    cases r.codec.decode payload <;> rfl

theorem due_of_timerFired (le : now ≤ deadline.tick)
    (fired : Context.timerFired deadline now = true) : now = deadline.tick :=
  le.antisymm (of_decide_eq_true fired)

theorem early_of_not_timerFired (fired : ¬Context.timerFired deadline now = true) :
    now < deadline.tick := by
  simpa [Context.timerFired] using fired

section accepting

variable {l : SocketListener} (phase : r.phase = .accepting l deadline)

include phase in
theorem input?_of_accept_none (h : Transport.accept l s = none) : r.input? s = none := by
  unfold Transport.accept at h
  split at h
  next => cases h
  next fault =>
    have nobody := Option.map_eq_none_iff.mp h
    simp only [input?, phase, fault, nobody, Option.bind_none]

include phase in
theorem poll_accepting (le : now ≤ deadline.tick) (polled : r.accept l deadline ts now s = some o) :
    (∃ result, o.value.phase = .settled (.returned result) ∧ r.Ends deadline ts now s result) ∨
      r.Goes deadline s o := by
  unfold Receiver.accept at polled
  dsimp only at polled
  split at polled
  next cause ended =>
    cases polled
    rw [Context.pollDone_eq_ended?] at ended
    exact .inl ⟨_, rfl, .context ended⟩
  next live =>
    rw [Context.pollDone_eq_ended?] at live
    split at polled
    next accepted haccept =>
      obtain ⟨cause, fault, rfl⟩ | ⟨stream, s', fault, next, rfl⟩ := Transport.accept_eq_some haccept
      · cases polled
        exact .inl ⟨_, rfl, .input live (by simp only [input?, phase, fault])⟩
      · cases polled
        obtain ⟨c, side⟩ := stream
        obtain ⟨rfl, same⟩ := Sockets.side_of_accept next
        refine .inr ⟨.inr ⟨_, _, rfl⟩, ?_, ?_⟩
        · rintro _ _ _ ⟨⟩
          exact FrameReader.ready_new
        · simp only [input?, goTo, phase, fault, next, Option.bind_some]
          rw [Transport.frame?_closeListener, Sockets.frame?_of_connections same]
          rfl
    next waiting =>
      split at polled
      next fired =>
        cases polled
        have undecided := input?_of_accept_none phase waiting
        exact .inl ⟨_, rfl, .timeout live undecided (due_of_timerFired le fired)⟩
      next => cases polled

include phase in
theorem idle_accepting (idle : r.accept l deadline ts now s = none) :
    r.Undecided deadline ts now s := by
  unfold Receiver.accept at idle
  dsimp only at idle
  split at idle
  next => cases idle
  next live =>
    rw [Context.pollDone_eq_ended?] at live
    split at idle
    next => split at idle <;> cases idle
    next waiting =>
      split at idle
      next => cases idle
      next fired =>
        exact ⟨live, input?_of_accept_none phase waiting, early_of_not_timerFired fired⟩

end accepting

section reading

variable {stream : Endpoint} {reader : FrameReader} {taken : Bytes}
  (phase : r.phase = .reading stream deadline reader) (ready : reader.Ready taken)

include phase ready in
theorem input?_reading (s : Sockets) : r.input? s = (s.frame? stream taken).map r.conclusion := by
  simp only [input?, phase, ready.holds.held_eq]

include phase ready in
theorem poll_reading (pos : 0 < grain) (le : now ≤ deadline.tick)
    (polled : r.read stream deadline reader grain ts now s = some o) :
    (∃ result, o.value.phase = .settled (.returned result) ∧ r.Ends deadline ts now s result) ∨
      r.Goes deadline s o := by
  have input := input?_reading phase ready
  have pos' : 0 < min grain reader.room := lt_min pos ready.room
  unfold Receiver.read at polled
  split at polled
  next cause ended =>
    cases polled
    rw [Context.pollDone_eq_ended?] at ended
    exact .inl ⟨_, rfl, .context ended⟩
  next live =>
    rw [Context.pollDone_eq_ended?] at live
    have ends : ∀ {result s'}, s.frame? stream taken = some result →
        some (r.decide result s') = some o → ∃ result, o.value.phase = .settled (.returned result) ∧
          r.Ends deadline ts now s result := by
      rintro result s' frame ⟨⟩
      exact ⟨_, r.decide_phase result s', .input live (by rw [input, frame, Option.map_some])⟩
    split at polled
    next bytes s' took =>
      obtain ⟨size, frame⟩ := Sockets.tells_of_read pos' ready.undecided took
      obtain ⟨verdict, further⟩ := ready.read (size.trans (Nat.min_le_right ..))
      split at polled
      next result reader' answer =>
        rw [answer] at verdict
        exact .inl (ends (frame.symm.trans (Sockets.frame?_of_verdict? verdict.symm)) polled)
      next reader' answer =>
        cases polled
        rw [answer] at further
        have ready' := further rfl
        refine .inr ⟨.inr ⟨_, _, rfl⟩, ?_, ?_⟩
        · rintro _ _ _ ⟨⟩
          rwa [ready'.holds.held_eq]
        · rw [input?_reading (r := r.goTo (.reading stream deadline reader')) rfl ready', frame, input]
          rfl
    next s' took =>
      have frame := Sockets.tells_of_read pos' ready.undecided took
      rw [ready.holds.finish] at polled
      exact .inl (ends frame polled)
    next cause s' took => exact .inl (ends (Sockets.tells_of_read pos' ready.undecided took) polled)
    next s' took =>
      split at polled
      next fired =>
        cases polled
        have frame : s.frame? stream taken = none := Sockets.tells_of_read pos' ready.undecided took
        have undecided : r.input? s = none := by rw [input, frame, Option.map_none]
        exact .inl ⟨_, rfl, .timeout live undecided (due_of_timerFired le fired)⟩
      next => cases polled

include phase ready in
theorem idle_reading (pos : 0 < grain) (idle : r.read stream deadline reader grain ts now s = none) :
    r.Undecided deadline ts now s := by
  have pos' : 0 < min grain reader.room := lt_min pos ready.room
  unfold Receiver.read at idle
  split at idle
  next => cases idle
  next live =>
    rw [Context.pollDone_eq_ended?] at live
    split at idle
    next => split at idle <;> cases idle
    next => cases idle
    next => cases idle
    next s' took =>
      split at idle
      next => cases idle
      next fired =>
        have frame : s.frame? stream taken = none := Sockets.tells_of_read pos' ready.undecided took
        refine ⟨live, ?_, early_of_not_timerFired fired⟩
        rw [input?_reading phase ready, frame, Option.map_none]

end reading

/-- A poll ends the exchange as it has to, or leaves the receiver waiting until the same deadline. -/
theorem ends_or_goes (pos : 0 < grain) (waits : r.WaitsUntil deadline) (prepared : r.Prepared)
    (le : now ≤ deadline.tick) (polled : r.move grain ts now s = some o) :
    (∃ result, o.value.phase = .settled (.returned result) ∧ r.Ends deadline ts now s result) ∨
      r.Goes deadline s o := by
  obtain ⟨l, phase⟩ | ⟨stream, reader, phase⟩ := waits
  · simp only [move, phase] at polled
    exact poll_accepting phase le polled
  · simp only [move, phase] at polled
    exact poll_reading phase (prepared phase) pos le polled

/-- A receiver is left waiting only where nothing decides its exchange. -/
theorem undecided_of_idle (pos : 0 < grain) (waits : r.WaitsUntil deadline) (prepared : r.Prepared)
    (idle : r.move grain ts now s = none) : r.Undecided deadline ts now s := by
  obtain ⟨l, phase⟩ | ⟨stream, reader, phase⟩ := waits
  · simp only [move, phase] at idle
    exact idle_accepting phase idle
  · simp only [move, phase] at idle
    exact idle_reading phase (prepared phase) pos idle

end Receiver

end EvidenceExchange
