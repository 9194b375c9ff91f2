import EvidenceExchange.Proofs.Moves.Result
import EvidenceExchange.Proofs.Sockets

namespace EvidenceExchange.Sender

inductive Turn (d : Sender) (s : Sockets) : Outcome Sender → Prop
  | quit {result log}
      (early : d.phase = .starting ∨ ∃ payload retry, d.phase = .connecting payload retry)
      (fails : result.Fails) (silent : deliveries log = []) :
      Turn d s ⟨d.goTo (.settled result), s, log⟩
  | start {payload} (phase : d.phase = .starting) (encoded : d.codec.encode d.bundle = .ok payload) :
      Turn d s ⟨d.goTo (.connecting payload .start), s, []⟩
  | retry {payload retry retry' log} (phase : d.phase = .connecting payload retry)
      (goesOn : ∀ result, retry' ≠ .settled result) (silent : deliveries log = []) :
      Turn d s ⟨d.goTo (.connecting payload retry'), s, log⟩
  | connect {payload retry stream s' frame log} (phase : d.phase = .connecting payload retry)
      (connected : s.connect d.path = (.ok stream, s')) (framed : Frame.encode payload = .ok frame)
      (silent : deliveries log = []) : Turn d s ⟨d.goTo (.writing payload stream frame), s', log⟩
  | connectFails {payload retry stream s' e result log} (phase : d.phase = .connecting payload retry)
      (connected : s.connect d.path = (.ok stream, s')) (unframed : Frame.encode payload = .error e)
      (fails : result.Fails) (silent : deliveries log = []) :
      Turn d s ⟨d.goTo (.settled result), s'.close stream, log⟩
  | write {payload stream rest grain count s'} (phase : d.phase = .writing payload stream rest)
      (wrote : s.write stream rest grain = (.wrote count, s')) (more : rest.drop count ≠ []) :
      Turn d s ⟨d.goTo (.writing payload stream (rest.drop count)), s', []⟩
  | deliver {payload stream rest grain count s' log} (phase : d.phase = .writing payload stream rest)
      (wrote : s.write stream rest grain = (.wrote count, s')) (all : rest.drop count = [])
      (told : deliveries log = [⟨d.bundle.length, payload.length, Digest.short payload⟩]) :
      Turn d s ⟨d.goTo (.settled (.returned (.ok ()))), (s'.shutdownWrite stream).close stream, log⟩
  | hangUp {payload stream rest result log} (phase : d.phase = .writing payload stream rest)
      (fails : result.Fails) (silent : deliveries log = []) :
      Turn d s ⟨d.goTo (.settled result), s.close stream, log⟩

variable {d : Sender} {ts : Tokens} {now : Nat} {s : Sockets}

theorem start_turn (phase : d.phase = .starting) : d.Turn s (d.start s) := by
  unfold start
  split
  next => exact .quit (.inl phase) (by simp) rfl
  next =>
    split
    next => exact .quit (.inl phase) (by simp) rfl
    next payload encoded => exact .start phase encoded

/-- Retries change nothing until one of them connects. -/
theorem retry_cases {path : String} {policy : RetryPolicy} {c : Context}
    {retry retry' : Retry Unit Endpoint IoError} {s' : Sockets} {log : List LogEvent}
    (h : retry.move (connecting path) policy c ts now s = some (retry', s', log)) :
    deliveries log = [] ∧ ((∀ e, retry' ≠ .settled (.ok e)) ∧ s' = s ∨
      ∃ e, retry' = .settled (.ok e) ∧ s.connect path = (.ok e, s')) := by
  unfold Retry.move at h
  split at h
  next =>
    dsimp only [connecting] at h
    split at h <;> cases h <;> exact ⟨rfl, .inl ⟨by simp, rfl⟩⟩
  next =>
    split at h
    next =>
      cases h
      exact ⟨rfl, .inl ⟨by simp, rfl⟩⟩
    next =>
      simp only [connecting, Transport.connect] at h
      split at h
      next => cases h
      next heq => cases heq
      next e _ heq =>
        obtain ⟨hvalue, rfl⟩ := AttemptPoll.finished.inj heq
        cases h
        exact ⟨rfl, .inr ⟨e, rfl, Prod.ext hvalue rfl⟩⟩
      next heq =>
        obtain ⟨hvalue, rfl⟩ := AttemptPoll.finished.inj heq
        cases h
        refine ⟨?_, .inl ⟨?_, ?_⟩⟩
        · unfold Retry.afterFailure
          split <;> rfl
        · unfold Retry.afterFailure
          split <;> simp
        · exact Sockets.connect_refused (Prod.ext hvalue rfl)
  next =>
    split at h
    next =>
      cases h
      exact ⟨rfl, .inl ⟨by simp, rfl⟩⟩
    next =>
      split at h
      next =>
        cases h
        exact ⟨rfl, .inl ⟨by simp, rfl⟩⟩
      next => cases h
  next => cases h

theorem connect_turn {payload : Bytes} {retry : Retry Unit Endpoint IoError} {o : Outcome Sender}
    (phase : d.phase = .connecting payload retry) (h : d.connect payload retry ts now s = some o) :
    d.Turn s o := by
  obtain ⟨⟨retry', s', log⟩, hretry, rfl⟩ := Option.map_eq_some_iff.mp h
  obtain ⟨silent, ⟨unsettled, rfl⟩ | ⟨stream, rfl, connected⟩⟩ := retry_cases hretry
  · dsimp only
    split
    next e => exact absurd rfl (unsettled e)
    next => exact .quit (.inr ⟨_, _, phase⟩) (by simp) (by rw [deliveries_append, silent]; rfl)
    next => exact .quit (.inr ⟨_, _, phase⟩) (by simp) (by rw [deliveries_append, silent]; rfl)
    next connected ended exhausted =>
      refine .retry phase ?_ silent
      rintro ((_ | _) | _) rfl
      · exact ended _ rfl
      · exact exhausted _ _ rfl
      · exact connected _ rfl
  · have told : deliveries (log ++ [.senderMoved d.path .connecting .writing]) = [] := by
      rw [deliveries_append, silent]
      rfl
    dsimp only [Sender.connected]
    split
    next e unframed =>
      exact .connectFails phase connected unframed (by simp) (by rw [deliveries_append, told]; rfl)
    next framed => exact .connect phase connected framed told

theorem write_turn {payload rest : Bytes} {stream : Endpoint} {grain : Nat} {o : Outcome Sender}
    (phase : d.phase = .writing payload stream rest)
    (h : d.write payload stream rest grain ts now s = some o) : d.Turn s o := by
  unfold Sender.write at h
  split at h
  next =>
    cases h
    exact .hangUp phase (by simp) rfl
  next =>
    split at h
    next count s' wrote =>
      split at h
      next all =>
        cases h
        exact .deliver phase wrote all rfl
      next rest' _ hrest =>
        cases h
        exact .write phase wrote hrest
    next s' wrote =>
      cases h
      obtain rfl := Sockets.write_broken wrote
      exact .hangUp phase (by simp) rfl
    next => cases h

theorem abort_turn (live : d.isOver = false) : d.Turn s (d.abort s) := by
  unfold abort
  dsimp only
  split
  next phase => exact .quit (.inl phase) (by simp) rfl
  next phase => exact .quit (.inr ⟨_, _, phase⟩) (by simp) rfl
  next phase => exact .hangUp phase (by simp) rfl
  next phase => simp [isOver, phase] at live

theorem turn_of_does {o : Outcome Sender} (h : d.Does ts now s o) : d.Turn s o := by
  cases h with
  | drop live => exact abort_turn live
  | move grain h =>
    unfold Sender.move at h
    split at h
    next phase =>
      cases h
      exact start_turn phase
    next phase => exact connect_turn phase h
    next phase => exact write_turn phase h
    next => cases h

theorem Turn.same_call {o : Outcome Sender} (h : d.Turn s o) : ∃ phase, o.value = d.goTo phase := by
  cases h <;> exact ⟨_, rfl⟩

end EvidenceExchange.Sender
