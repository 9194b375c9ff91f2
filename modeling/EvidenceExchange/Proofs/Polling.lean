import EvidenceExchange.Proofs.Course.Receiver
import EvidenceExchange.Proofs.Frame.Stopping
import EvidenceExchange.Proofs.Waiting

namespace EvidenceExchange

theorem Sockets.chunk_ne_nil {s s' : Sockets} {e : Endpoint} {grain : Nat} {bytes : Bytes}
    (took : s.read e grain = (.chunk bytes, s')) : bytes ≠ [] := by
  unfold read at took
  split at took
  next => cases took
  next =>
    dsimp only at took
    split at took
    next =>
      cases took
      simp
    next => (repeat' split at took) <;> cases took

/-- Bytes that decide no frame are fewer than a frame may have. -/
theorem Frame.length_lt_of_undecided {limit : Nat} {bytes : Bytes}
    (undecided : verdict? limit bytes = none) : bytes.length < lengthSize + limit := by
  by_contra long
  have settles : Settles limit bytes := by
    have prefixed : 4 ≤ bytes.length := by
      simp only [lengthSize] at long
      omega
    refine ⟨prefixed, ?_⟩
    by_cases exceeds : limit < BigEndian.decode (bytes.take 4)
    · exact .inl exceeds
    · right
      simp only [lengthSize] at long
      omega
  exact settles_iff.mp settles undecided

namespace Receiver

/-- A log tells of no receiver that goes back, or stays where it is. -/
def Ascends (log : List LogEvent) : Prop :=
  ∀ path old new, LogEvent.receiverMoved path old new ∈ log → old.rank < new.rank

/-- A bound on the polls that are left: one for each step up to the connection, and one for each byte that
a frame may have. -/
def pollsLeft (r : Receiver) : Nat :=
  match r.phase with
  | .starting => Frame.lengthSize + Frame.maxPayload + 7
  | .locking => Frame.lengthSize + Frame.maxPayload + 6
  | .reclaiming _ => Frame.lengthSize + Frame.maxPayload + 5
  | .removing _ => Frame.lengthSize + Frame.maxPayload + 4
  | .removed _ _ => Frame.lengthSize + Frame.maxPayload + 3
  | .binding _ => Frame.lengthSize + Frame.maxPayload + 2
  | .accepting .. => Frame.lengthSize + Frame.maxPayload + 1
  | .reading _ _ reader =>
    Frame.lengthSize + Frame.maxPayload - (reader.codec.held reader.buffer.toList).length
  | .settled _ => 0

/-- The socket is bound, and the deadline is not representable. -/
def Overflows (r : Receiver) (now : Nat) (s : Sockets) : Prop :=
  ∃ l li, r.phase = .binding l ∧ (Transport.listen r.path l s).value = .ok li ∧
    (Instant.ofMillis now).add? r.config.timeout = none

/-- A poll after which the call goes on, with fewer polls left, or has returned. -/
inductive Polled (r : Receiver) : Outcome Receiver → Prop
  | goes {phase s log} (fewer : (r.goTo phase).pollsLeft < r.pollsLeft)
      (running : (r.goTo phase).isOver = false) (ascends : Ascends log) :
      Polled r ⟨r.goTo phase, s, log⟩
  | returns {result s log} (last : 0 < r.pollsLeft) (ascends : Ascends log) :
      Polled r ⟨r.finish result, s, log⟩

/-- What a poll may come to. -/
structure PollSpec (r : Receiver) (now : Nat) (s : Sockets) (o : Outcome Receiver) : Prop where
  fewer : o.value.pollsLeft < r.pollsLeft
  ascends : Ascends o.log
  ends : ∀ result, o.value.phase = .settled result → (∃ x, result = .returned x) ∨ result = .overflowed
  overflows : o.value.phase = .settled .overflowed ↔ r.Overflows now s

variable {r : Receiver} {ts : Tokens} {now grain : Nat} {s : Sockets} {o : Outcome Receiver}

/-- Up to the connection, each phase further on leaves fewer polls. -/
theorem pollsLeft_lt (apart : r.phase.rank < 7) {phase : Phase} (ahead : r.phase.rank < phase.rank) :
    (r.goTo phase).pollsLeft < r.pollsLeft := by
  obtain ⟨config, codec, context, stands⟩ := r
  cases stands with
  | starting | locking | reclaiming | removing | removed | binding | accepting =>
    cases phase <;> simp only [pollsLeft, goTo, Phase.rank] at ahead ⊢ <;> omega
  | reading | settled => simp [Phase.rank] at apart

theorem pollsLeft_pos (apart : r.phase.rank < 7) : 0 < r.pollsLeft := by
  have ahead : r.phase.rank < (Phase.settled .aborted).rank := Nat.lt_succ_of_lt apart
  exact Nat.zero_lt_of_lt (pollsLeft_lt apart ahead)

theorem Ascends.append {log log' : List LogEvent} (first : Ascends log) (second : Ascends log') :
    Ascends (log ++ log') := by
  intro path old new mem
  rcases List.mem_append.mp mem with mem | mem
  · exact first path old new mem
  · exact second path old new mem

theorem ascends_of_silent {log : List LogEvent} (silent : milestones log = []) : Ascends log := by
  intro path old new mem
  have told : LogEvent.receiverMoved path old new ∈ milestones log := List.mem_filter.mpr ⟨mem, rfl⟩
  rw [silent] at told
  cases told

theorem ascends_moved {old new : ReceiverState} (ahead : old.rank < new.rank) (path : String) :
    Ascends [.receiverMoved path old new] := by
  intro path' old' new' mem
  cases List.mem_singleton.mp mem
  exact ahead

theorem ascends_listen (path : String) (l : SocketLock) (s : Sockets) :
    Ascends (Transport.listen path l s).log := by
  intro path' old new mem
  unfold Transport.listen at mem
  split at mem
  next => cases mem
  next => cases List.mem_singleton.mp mem

theorem refuse_polled (last : 0 < r.pollsLeft) (e : ExchangeError) (s : Sockets) :
    r.Polled (r.refuse e s) :=
  .returns last (ascends_of_silent rfl)

theorem fail_polled {state : ReceiverState} {log : List LogEvent} (last : 0 < r.pollsLeft)
    (ahead : state.rank < ReceiverState.failed.rank) (ascends : Ascends log) (e : ExchangeError)
    (s : Sockets) : r.Polled (r.fail state e s log) := by
  have told : Ascends [.receiveFailed r.path state e.message] := ascends_of_silent rfl
  exact .returns last (ascends.append (told.append (ascends_moved ahead r.path)))

theorem start_polled (phase : r.phase = .starting) (ts : Tokens) (now : Nat) (s : Sockets) :
    r.Polled (r.start ts now s) := by
  have apart : r.phase.rank < 7 := by simp [phase, Phase.rank]
  have last := pollsLeft_pos apart
  unfold Receiver.start
  split
  next => exact refuse_polled last _ s
  next =>
    split
    next => exact refuse_polled last _ s
    next => exact .goes (pollsLeft_lt apart (by simp [phase, Phase.rank])) rfl (ascends_of_silent rfl)

theorem lock_polled (phase : r.phase = .locking) (ts : Tokens) (now : Nat) (s : Sockets) :
    r.Polled (r.lock ts now s) := by
  have apart : r.phase.rank < 7 := by simp [phase, Phase.rank]
  have last := pollsLeft_pos apart
  unfold Receiver.lock
  split
  next => exact refuse_polled last _ _
  next =>
    dsimp only
    split
    next => exact refuse_polled last _ _
    next =>
      have ascends := ascends_of_silent (milestones_lock r.path s)
      split
      · exact .goes (pollsLeft_lt apart (by simp [phase, Phase.rank])) rfl ascends
      · exact .goes (pollsLeft_lt apart (by simp [phase, Phase.rank])) rfl ascends

theorem reclaim_polled {l : SocketLock} (phase : r.phase = .reclaiming l) (ts : Tokens) (now : Nat)
    (s : Sockets) : r.Polled (r.reclaim l ts now s) := by
  have apart : r.phase.rank < 7 := by simp [phase, Phase.rank]
  have last := pollsLeft_pos apart
  unfold Receiver.reclaim
  split
  next => exact refuse_polled last _ _
  next =>
    split
    · exact .goes (pollsLeft_lt apart (by simp [phase, Phase.rank])) rfl (ascends_of_silent rfl)
    · exact .goes (pollsLeft_lt apart (by simp [phase, Phase.rank])) rfl (ascends_of_silent rfl)

theorem remove_polled {l : SocketLock} (phase : r.phase = .removing l) (ts : Tokens) (now : Nat)
    (s : Sockets) : r.Polled (r.remove l ts now s) := by
  have apart : r.phase.rank < 7 := by simp [phase, Phase.rank]
  have last := pollsLeft_pos apart
  unfold Receiver.remove
  split
  next => exact refuse_polled last _ _
  next => exact .goes (pollsLeft_lt apart (by simp [phase, Phase.rank])) rfl (ascends_of_silent rfl)

theorem reclaimed_polled {l : SocketLock} {removal : Except IoError Unit}
    (phase : r.phase = .removed l removal) (ts : Tokens) (now : Nat) (s : Sockets) :
    r.Polled (r.reclaimed l removal ts now s) := by
  have apart : r.phase.rank < 7 := by simp [phase, Phase.rank]
  have last := pollsLeft_pos apart
  have silent := milestones_afterRemoval r.path removal
  unfold Receiver.reclaimed
  split
  next => exact refuse_polled last _ _
  next =>
    split
    next => exact refuse_polled last _ _
    next reported =>
      rw [reported] at silent
      exact .goes (pollsLeft_lt apart (by simp [phase, Phase.rank])) rfl (ascends_of_silent silent)

theorem accept_polled {li : SocketListener} {deadline : Instant} (phase : r.phase = .accepting li deadline)
    (polled : r.accept li deadline ts now s = some o) : r.Polled o := by
  have apart : r.phase.rank < 7 := by simp [phase, Phase.rank]
  have last := pollsLeft_pos apart
  have closed := ascends_of_silent (milestones_closeListener li s)
  have gives_up (e : ExchangeError) : r.Polled (r.fail .listening e
      (Transport.closeListener li s).sockets (Transport.closeListener li s).log) :=
    fail_polled last (by decide) closed e _
  unfold Receiver.accept at polled
  dsimp only at polled
  split at polled
  next =>
    cases polled
    exact gives_up _
  next =>
    split at polled
    next accepted haccept =>
      obtain ⟨cause, -, rfl⟩ | ⟨stream, s', -, -, rfl⟩ := Transport.accept_eq_some haccept
      · cases polled
        exact gives_up _
      · cases polled
        have taken : Ascends [.connectionAccepted li.path] := ascends_of_silent rfl
        have given_up := ascends_of_silent (milestones_closeListener li s')
        have moved : Ascends ([.receiverMoved r.path .listening .accepted] ++
            [.receiverMoved r.path .accepted .readingFrame]) :=
          (ascends_moved (by decide) r.path).append (ascends_moved (by decide) r.path)
        exact .goes (pollsLeft_lt apart (by simp [phase, Phase.rank])) rfl
          ((taken.append given_up).append moved)
    next =>
      split at polled
      next =>
        cases polled
        exact gives_up _
      next => cases polled

theorem decide_polled (last : 0 < r.pollsLeft) (result : Except FrameError Bytes) (s : Sockets) :
    r.Polled (r.decide result s) := by
  have moved : Ascends [.receiverMoved r.path .readingFrame .decoding] := ascends_moved (by decide) r.path
  unfold Receiver.decide
  split
  next => exact fail_polled last (by decide) (ascends_of_silent rfl) _ s
  next payload =>
    unfold Receiver.decode
    dsimp only
    split
    next => exact fail_polled last (by decide) moved _ s
    next bundle decoded =>
      have told : Ascends [.evidenceReceived r.path ⟨bundle.length, payload.length, Digest.short payload⟩] :=
        ascends_of_silent rfl
      have done : Ascends [.receiverMoved r.path .decoding .done] := ascends_moved (by decide) r.path
      exact .returns last (moved.append (told.append done))

theorem read_polled {stream : Endpoint} {deadline : Instant} {reader : FrameReader} {taken : Bytes}
    (phase : r.phase = .reading stream deadline reader) (ready : reader.Ready taken) (pos : 0 < grain)
    (polled : r.read stream deadline reader grain ts now s = some o) : r.Polled o := by
  have short := Frame.length_lt_of_undecided ready.undecided
  have left : r.pollsLeft = Frame.lengthSize + Frame.maxPayload - taken.length := by
    simp only [pollsLeft, phase, ready.holds.held_eq]
  have last : 0 < r.pollsLeft := by omega
  have pos' : 0 < min grain reader.room := lt_min pos ready.room
  unfold Receiver.read at polled
  split at polled
  next =>
    cases polled
    exact fail_polled last (by decide) (ascends_of_silent rfl) _ _
  next =>
    split at polled
    next bytes s' took =>
      obtain ⟨size, -⟩ := Sockets.tells_of_read pos' ready.undecided took
      obtain ⟨-, further⟩ := ready.read (size.trans (Nat.min_le_right ..))
      split at polled
      next =>
        cases polled
        exact decide_polled last _ _
      next reader' answer =>
        cases polled
        rw [answer] at further
        have ready' := further rfl
        -- A read that takes nothing would be no progress, but then it is the end of the stream.
        have more : 0 < bytes.length := List.length_pos_iff.mpr (Sockets.chunk_ne_nil took)
        refine .goes ?_ rfl (ascends_of_silent rfl)
        simp only [pollsLeft, goTo, phase, ready.holds.held_eq, ready'.holds.held_eq, List.length_append]
        omega
    next =>
      cases polled
      exact decide_polled last _ _
    next =>
      cases polled
      exact decide_polled last _ _
    next =>
      split at polled
      next =>
        cases polled
        exact fail_polled last (by decide) (ascends_of_silent rfl) _ _
      next => cases polled

theorem Polled.pollSpec (polled : r.Polled o) (sound : ¬r.Overflows now s) : r.PollSpec now s o := by
  cases polled with
  | @goes phase _ _ fewer running ascends =>
    have settled : ∀ result, phase ≠ .settled result := by
      rintro result rfl
      cases running
    exact ⟨fewer, ascends, fun result ends => absurd ends (settled result),
      fun ends => absurd ends (settled _), fun overflows => absurd overflows sound⟩
  | returns last ascends =>
    refine ⟨last, ascends, fun result ends => ?_, fun ends => ?_, fun overflows => absurd overflows sound⟩
    · cases ends
      exact .inl ⟨_, rfl⟩
    · cases ends

theorem bind_pollSpec {l : SocketLock} (phase : r.phase = .binding l) (now : Nat) (s : Sockets) :
    r.PollSpec now s (r.bind l now s) := by
  have apart : r.phase.rank < 7 := by simp [phase, Phase.rank]
  have last := pollsLeft_pos apart
  obtain ⟨e, unbound, binds⟩ | ⟨li, deadline, bound, represented, binds⟩ | ⟨li, bound, missed, binds⟩ :=
    r.bind_cases l now s <;> rw [binds]
  · refine (refuse_polled last _ _).pollSpec ?_
    rintro ⟨l', li, same, bound, -⟩
    cases phase.symm.trans same
    cases unbound.symm.trans bound
  · have fewer : (r.goTo (.accepting li deadline)).pollsLeft < r.pollsLeft :=
      pollsLeft_lt apart (by simp [phase, Phase.rank])
    refine Polled.pollSpec (.goes fewer rfl (ascends_listen r.path l s)) ?_
    rintro ⟨l', li, same, -, missed⟩
    cases represented.symm.trans missed
  · have closed := ascends_of_silent
      (milestones_closeListener li (Transport.listen r.path l s).sockets)
    refine ⟨last, (ascends_listen r.path l s).append closed, fun result ends => ?_, fun _ => ?_, fun _ => rfl⟩
    · cases ends
      exact .inr rfl
    · exact ⟨l, li, phase, bound, missed⟩

theorem move_pollSpec (prepared : r.Prepared) (pos : 0 < grain)
    (polled : r.move grain ts now s = some o) : r.PollSpec now s o := by
  have elsewhere : (∀ l, r.phase ≠ .binding l) → ¬r.Overflows now s := by
    rintro other ⟨l, li, phase, -⟩
    exact other l phase
  unfold Receiver.move at polled
  split at polled
  next phase =>
    cases polled
    exact (start_polled phase ts now s).pollSpec (elsewhere (by simp [phase]))
  next phase =>
    cases polled
    exact (lock_polled phase ts now s).pollSpec (elsewhere (by simp [phase]))
  next l phase =>
    cases polled
    exact (reclaim_polled phase ts now s).pollSpec (elsewhere (by simp [phase]))
  next l phase =>
    cases polled
    exact (remove_polled phase ts now s).pollSpec (elsewhere (by simp [phase]))
  next l removal phase =>
    cases polled
    exact (reclaimed_polled phase ts now s).pollSpec (elsewhere (by simp [phase]))
  next l phase =>
    cases polled
    exact bind_pollSpec phase now s
  next phase => exact (accept_polled phase polled).pollSpec (elsewhere (by simp [phase]))
  next phase => exact (read_polled phase (prepared phase) pos polled).pollSpec (elsewhere (by simp [phase]))
  next => cases polled

end Receiver

end EvidenceExchange
