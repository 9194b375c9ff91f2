import EvidenceExchange.Proofs.Course.Basic
import EvidenceExchange.Proofs.Delivery

namespace EvidenceExchange

/-- An event that tells how far a receive has come. -/
def LogEvent.isReceiverMilestone : LogEvent → Bool
  | socketBound _ | receiverMoved .. => true
  | _ => false

namespace Receiver

def milestones (log : List LogEvent) : List LogEvent := log.filter LogEvent.isReceiverMilestone

@[simp]
theorem milestones_append (log log' : List LogEvent) :
    milestones (log ++ log') = milestones log ++ milestones log' :=
  List.filter_append ..

theorem milestones_lock (path : String) (s : Sockets) : milestones (Transport.lock path s).log = [] := by
  unfold Transport.lock
  split
  next => rfl
  next => split <;> rfl

theorem milestones_afterRemoval (path : String) (result : Except IoError Unit) :
    milestones (Transport.afterRemoval path result).2 = [] := by
  cases result <;> rfl

theorem milestones_listen {path : String} {l : SocketLock} {s : Sockets} {li : SocketListener}
    (bound : (Transport.listen path l s).value = .ok li) :
    milestones (Transport.listen path l s).log = [.socketBound path] := by
  unfold Transport.listen at bound ⊢
  split at bound
  next => cases bound
  next => rfl

theorem milestones_closeListener (l : SocketListener) (s : Sockets) :
    milestones (Transport.closeListener l s).log = [] := by
  unfold Transport.closeListener
  cases s.fs.unlink l.path with
  | ok fs => rfl
  | error e =>
    dsimp only
    split <;> rfl

end Receiver

namespace ReceiverState

/-- The way of a receive that goes on without failing, up to its end. -/
def way : List ReceiverState := [listening, accepted, readingFrame, decoding]

/-- The errors that an exchange can end with in a state. -/
inductive FailsWith : ReceiverState → ExchangeError → Prop
  | ended {state} (waits : state = listening ∨ state = readingFrame) (cause : Cancellation) :
      FailsWith state (.ofCancellation cause)
  | timeout {state} (waits : state = listening ∨ state = readingFrame) (after : Duration) :
      FailsWith state (.timeout after)
  | io {state} (waits : state = listening ∨ state = readingFrame) (cause : IoError) :
      FailsWith state (.io cause)
  | frame {cause} (own : ∀ e, cause ≠ .io e) : FailsWith readingFrame (.frame cause)
  | decode (cause : Evidence.CodecError) : FailsWith decoding (.decode cause)

theorem FailsWith.ofFrame (cause : FrameError) : FailsWith readingFrame (.ofFrame cause) := by
  cases cause with
  | io cause => exact .io (.inr rfl) cause
  | truncatedLength | truncatedPayload | payloadTooLarge => exact .frame (by simp)

theorem FailsWith.ne_frame_io {state : ReceiverState} {e : ExchangeError} (fails : state.FailsWith e)
    (cause : IoError) : e ≠ .frame (.io cause) := by
  cases fails with
  | ended _ ended => exact ExchangeError.ofCancellation_ne_frame ended _
  | frame own => simpa using own cause
  | timeout | io | decode => simp

/-- Every part of the way that has a state starts with listening. -/
theorem starts_of_prefix {passed : List ReceiverState} (along : passed <+: way) (some : passed ≠ [])
    (rest : List ReceiverState) : (passed ++ rest).head? = Option.some .listening := by
  obtain ⟨left, whole⟩ := along
  obtain _ | ⟨first, passed⟩ := passed
  · contradiction
  · exact congrArg List.head? whole

/-- A receive that fails anywhere on its way goes forward only, as one does that goes on. -/
theorem forward_of_prefix {passed rest : List ReceiverState} (along : passed <+: way)
    (sub : rest.Sublist [.failed]) : Forward (passed ++ rest) := by
  have forward : Forward (way ++ [.failed]) := by decide
  exact forward.sublist (along.sublist.append sub)

end ReceiverState

namespace Receiver

open ReceiverState (way)

/-- What is logged of a receive at a path that has bound and gone through some states. -/
def trail (path : String) (states : List ReceiverState) : List LogEvent :=
  .socketBound path :: (transitions states).map fun (old, new) => .receiverMoved path old new

theorem trail_concat (path : String) (passed : List ReceiverState) (state next : ReceiverState) :
    trail path (passed ++ [state, next]) =
      trail path (passed ++ [state]) ++ [.receiverMoved path state next] := by
  simp only [trail, transitions_concat, List.map_append, List.cons_append]
  rfl

/-- What has been accepted and logged by the end of a call. -/
inductive Closes (path : String) :
    CallResult Evidence.Bundle → List Endpoint → List LogEvent → Prop
  | refuse {e} (own : ∀ cause, e ≠ .frame (.io cause)) : Closes path (.returned (.error e)) [] []
  | fail {passed state e accepted} (along : passed ++ [state] <+: way) (fails : state.FailsWith e)
      (once : accepted.length ≤ 1) :
      Closes path (.returned (.error e)) accepted (trail path (passed ++ [state, .failed]))
  | done (bundle : Evidence.Bundle) (stream : Endpoint) :
      Closes path (.returned (.ok bundle)) [stream] (trail path (way ++ [.done]))
  | leave {result} (cut : ∀ x, result ≠ .returned x) : Closes path result [] []
  | leaveBound (states) {accepted result} (cut : ∀ x, result ≠ .returned x) (along : states <+: way)
      (bound : states ≠ []) (once : accepted.length ≤ 1) :
      Closes path result accepted (trail path states)

/-- What has been accepted and logged in each phase. -/
def PhaseLog (r : Receiver) (accepted : List Endpoint) (told : List LogEvent) : Prop :=
  match r.phase with
  | .starting | .locking | .reclaiming _ | .removing _ | .removed _ _ | .binding _ =>
    accepted = [] ∧ told = []
  | .accepting _ _ => accepted = [] ∧ told = trail r.path [.listening]
  | .reading stream _ _ =>
    accepted = [stream] ∧ told = trail r.path [.listening, .accepted, .readingFrame]
  | .settled result => Closes r.path result accepted told

/-- A turn keeps the configuration, and what it adds to what was accepted and told before fits the phase
that it leads to. -/
def PhaseLogAfter (r : Receiver) (accepted : List Endpoint) (told : List LogEvent) (more : List Endpoint)
    (o : Outcome Receiver) : Prop :=
  o.value.config = r.config ∧ o.value.PhaseLog (accepted ++ more) (told ++ milestones o.log)

variable {r : Receiver} {ts : Tokens} {now : Nat} {s : Sockets} {o : Outcome Receiver}

theorem refuse_phaseLog {e : ExchangeError} (own : ∀ cause, e ≠ .frame (.io cause)) :
    r.PhaseLogAfter [] [] [] (r.refuse e s) :=
  ⟨rfl, .refuse own⟩

theorem refuse_ended_phaseLog (cause : Cancellation) :
    r.PhaseLogAfter [] [] [] (r.refuse (.ofCancellation cause) s) :=
  refuse_phaseLog fun _ => ExchangeError.ofCancellation_ne_frame _ _

theorem validate_ne_frame {c : ReceiverConfig} {e : ExchangeError} (refused : c.validate = .error e)
    (cause : FrameError) : e ≠ .frame cause := by
  unfold ReceiverConfig.validate checkSocket at refused
  rintro rfl
  revert refused
  split
  next => rintro ⟨⟩
  next => cases c.timeout.isZero <;> rintro ⟨⟩

theorem start_phaseLog (ts : Tokens) (now : Nat) (s : Sockets) :
    r.PhaseLogAfter [] [] [] (r.start ts now s) := by
  unfold start
  split
  next refused => exact refuse_phaseLog fun _ => validate_ne_frame refused _
  next =>
    split
    next => exact refuse_ended_phaseLog _
    next => exact ⟨rfl, rfl, rfl⟩

theorem lock_phaseLog (ts : Tokens) (now : Nat) (s : Sockets) :
    r.PhaseLogAfter [] [] [] (r.lock ts now s) := by
  unfold Receiver.lock
  split
  next => exact refuse_ended_phaseLog _
  next =>
    dsimp only
    split
    next => exact refuse_phaseLog (by simp)
    next l locked =>
      refine ⟨rfl, ?_⟩
      simp only [List.append_nil, milestones_lock]
      split <;> exact ⟨rfl, rfl⟩

theorem reclaim_phaseLog (l : SocketLock) (ts : Tokens) (now : Nat) (s : Sockets) :
    r.PhaseLogAfter [] [] [] (r.reclaim l ts now s) := by
  unfold Receiver.reclaim
  split
  next => exact refuse_ended_phaseLog _
  next =>
    refine ⟨rfl, ?_⟩
    cases Transport.hasSocket r.path s <;> exact ⟨rfl, rfl⟩

theorem remove_phaseLog (l : SocketLock) (ts : Tokens) (now : Nat) (s : Sockets) :
    r.PhaseLogAfter [] [] [] (r.remove l ts now s) := by
  unfold Receiver.remove
  split
  next => exact refuse_ended_phaseLog _
  next => exact ⟨rfl, rfl, rfl⟩

theorem reclaimed_phaseLog (l : SocketLock) (removal : Except IoError Unit) (ts : Tokens) (now : Nat)
    (s : Sockets) : r.PhaseLogAfter [] [] [] (r.reclaimed l removal ts now s) := by
  have silent := milestones_afterRemoval r.path removal
  unfold Receiver.reclaimed
  split
  next => exact refuse_ended_phaseLog _
  next =>
    split
    next => exact refuse_phaseLog (by simp)
    next reported =>
      rw [reported] at silent
      exact ⟨rfl, rfl, silent⟩

theorem bind_phaseLog (l : SocketLock) (now : Nat) (s : Sockets) :
    r.PhaseLogAfter [] [] [] (r.bind l now s) := by
  obtain ⟨e, unbound, binds⟩ | ⟨li, deadline, bound, -, binds⟩ | ⟨li, bound, -, binds⟩ :=
    r.bind_cases l now s <;> rw [binds]
  · exact refuse_phaseLog (by simp)
  · exact ⟨rfl, rfl, milestones_listen bound⟩
  · -- The deadline is not representable: the call ends by itself, still listening.
    refine ⟨rfl, ?_⟩
    simp only [milestones_append, milestones_listen bound, milestones_closeListener, List.append_nil]
    exact .leaveBound [.listening] (by simp) (by decide) (by simp) (by simp)

/-- An exchange that fails in the last of the states that it has gone through. -/
theorem fail_phaseLog {accepted more : List Endpoint} {told log : List LogEvent}
    (passed : List ReceiverState) {state : ReceiverState} {e : ExchangeError}
    (along : passed ++ [state] <+: way) (fails : state.FailsWith e)
    (here : told ++ milestones log = trail r.path (passed ++ [state]))
    (once : (accepted ++ more).length ≤ 1) : r.PhaseLogAfter accepted told more (r.fail state e s log) := by
  refine ⟨rfl, ?_⟩
  rw [fail, milestones_append, ← List.append_assoc, here]
  have closes : Closes r.path (.returned (.error e)) (accepted ++ more) _ := .fail along fails once
  rw [trail_concat] at closes
  exact closes

theorem accept_phaseLog {l : SocketListener} {deadline : Instant} {grain : Nat}
    (phase : r.phase = .accepting l deadline) (h : r.accept l deadline ts now s = some o) :
    r.PhaseLogAfter [] (trail r.path [.listening]) (r.accepts? ⟨grain, ts, now, s⟩).toList o := by
  have gives_up : ∀ {e more}, ReceiverState.FailsWith .listening e → more.length ≤ 1 →
      r.PhaseLogAfter [] (trail r.path [.listening]) more (r.fail .listening e
        (Transport.closeListener l s).sockets (Transport.closeListener l s).log) :=
    fun fails once => fail_phaseLog [] (by decide) fails
      (by rw [milestones_closeListener, List.append_nil]; rfl) once
  have once : ((r.accepts? ⟨grain, ts, now, s⟩).toList).length ≤ 1 := by
    cases r.accepts? ⟨grain, ts, now, s⟩ <;> simp
  unfold Receiver.accept at h
  dsimp only at h
  split at h
  next cause ended =>
    cases h
    exact gives_up (.ended (.inl rfl) cause) once
  next live =>
    split at h
    next accepted haccept =>
      obtain ⟨cause, -, rfl⟩ | ⟨stream, s', -, -, rfl⟩ := Transport.accept_eq_some haccept
      · cases h
        exact gives_up (.io (.inl rfl) cause) once
      · cases h
        have taken : r.accepts? ⟨grain, ts, now, s⟩ = some stream := by
          simp only [accepts?, phase, live, haccept, Option.bind_some]
          rfl
        rw [taken]
        refine ⟨rfl, rfl, ?_⟩
        simp only [milestones_append, milestones_closeListener, List.append_nil]
        rfl
    next =>
      split at h
      next =>
        cases h
        exact gives_up (.timeout (.inl rfl) r.config.timeout) once
      next => cases h

theorem decide_phaseLog (r : Receiver) (stream : Endpoint) (result : Except FrameError Bytes) (s : Sockets) :
    r.PhaseLogAfter [stream] (trail r.path [.listening, .accepted, .readingFrame]) [] (r.decide result s) := by
  unfold decide
  split
  next e => exact fail_phaseLog [.listening, .accepted] (by decide) (.ofFrame e) rfl (by simp)
  next payload =>
    unfold Receiver.decode
    dsimp only
    split
    next e _ =>
      exact fail_phaseLog [.listening, .accepted, .readingFrame] (by decide) (.decode e) rfl (by simp)
    next bundle decoded => exact ⟨rfl, .done bundle stream⟩

theorem read_phaseLog {stream : Endpoint} {deadline : Instant} {reader : FrameReader} {grain : Nat}
    (h : r.read stream deadline reader grain ts now s = some o) :
    r.PhaseLogAfter [stream] (trail r.path [.listening, .accepted, .readingFrame]) [] o := by
  have breaks_off : ∀ {e s}, ReceiverState.FailsWith .readingFrame e →
      r.PhaseLogAfter [stream] (trail r.path [.listening, .accepted, .readingFrame]) []
        (r.fail .readingFrame e s []) :=
    fun fails => fail_phaseLog [.listening, .accepted] (by decide) fails rfl (by simp)
  unfold Receiver.read at h
  split at h
  next cause ended =>
    cases h
    exact breaks_off (.ended (.inr rfl) cause)
  next =>
    split at h
    next =>
      split at h
      next =>
        cases h
        exact r.decide_phaseLog ..
      next =>
        cases h
        exact ⟨rfl, rfl, rfl⟩
    next =>
      cases h
      exact r.decide_phaseLog ..
    next =>
      cases h
      exact r.decide_phaseLog ..
    next =>
      split at h
      next =>
        cases h
        exact breaks_off (.timeout (.inr rfl) r.config.timeout)
      next => cases h

theorem abort_phaseLog {accepted : List Endpoint} {told : List LogEvent} (live : r.isOver = false)
    (logs : r.PhaseLog accepted told) : r.PhaseLogAfter accepted told [] (r.abort s) := by
  cases phase : r.phase with
  | starting | locking | reclaiming | removing | removed | binding =>
    simp only [PhaseLog, phase] at logs
    obtain ⟨rfl, rfl⟩ := logs
    simp only [abort, phase]
    exact ⟨rfl, .leave (by simp)⟩
  | accepting l deadline =>
    simp only [PhaseLog, phase] at logs
    obtain ⟨rfl, rfl⟩ := logs
    simp only [abort, phase, PhaseLogAfter, milestones_closeListener, List.append_nil]
    exact ⟨rfl, .leaveBound [.listening] (by simp) (by decide) (by decide) (by simp)⟩
  | reading stream deadline reader =>
    simp only [PhaseLog, phase] at logs
    obtain ⟨rfl, rfl⟩ := logs
    simp only [abort, phase]
    exact ⟨rfl, .leaveBound [.listening, .accepted, .readingFrame] (by simp) (by decide)
      (by decide) (by simp)⟩
  | settled => simp [isOver, phase] at live

theorem accepts?_eq_none {p : Poll} (elsewhere : ∀ l deadline, r.phase ≠ .accepting l deadline) :
    r.accepts? p = none := by
  unfold accepts?
  split
  next phase _ => exact absurd phase (elsewhere _ _)
  next => rfl

/-- Before its socket is bound a receive accepts nothing and tells nothing. -/
theorem PhaseLogAfter.of_unbound {accepted : List Endpoint} {told : List LogEvent} {p : Poll}
    (elsewhere : ∀ l deadline, r.phase ≠ .accepting l deadline) (unbound : accepted = [] ∧ told = [])
    (after : r.PhaseLogAfter [] [] [] o) : r.PhaseLogAfter accepted told (r.accepts? p).toList o := by
  obtain ⟨rfl, rfl⟩ := unbound
  rw [accepts?_eq_none elsewhere]
  exact after

/-- A turn leads from a phase that fits what was accepted and told to one that fits what is after it. -/
theorem Acts.phaseLog {accepted more : List Endpoint} {told : List LogEvent} {p : Poll}
    (acts : r.Acts p more o) (logs : r.PhaseLog accepted told) : r.PhaseLogAfter accepted told more o := by
  cases acts with
  | drop live => exact abort_phaseLog live logs
  | move moved =>
    unfold PhaseLog at logs
    unfold Receiver.move at moved
    cases phase : r.phase with
    | accepting l deadline =>
      simp only [phase] at logs moved
      obtain ⟨rfl, rfl⟩ := logs
      exact accept_phaseLog phase moved
    | reading stream deadline reader =>
      simp only [phase] at logs moved
      obtain ⟨rfl, rfl⟩ := logs
      rw [accepts?_eq_none (by simp [phase])]
      exact read_phaseLog moved
    | settled => simp only [phase, reduceCtorEq] at moved
    | starting =>
      simp only [phase, Option.some.injEq] at logs moved
      obtain rfl := moved
      exact .of_unbound (by simp [phase]) logs (start_phaseLog ..)
    | locking =>
      simp only [phase, Option.some.injEq] at logs moved
      obtain rfl := moved
      exact .of_unbound (by simp [phase]) logs (lock_phaseLog ..)
    | reclaiming l =>
      simp only [phase, Option.some.injEq] at logs moved
      obtain rfl := moved
      exact .of_unbound (by simp [phase]) logs (reclaim_phaseLog ..)
    | removing l =>
      simp only [phase, Option.some.injEq] at logs moved
      obtain rfl := moved
      exact .of_unbound (by simp [phase]) logs (remove_phaseLog ..)
    | removed l removal =>
      simp only [phase, Option.some.injEq] at logs moved
      obtain rfl := moved
      exact .of_unbound (by simp [phase]) logs (reclaimed_phaseLog ..)
    | binding l =>
      simp only [phase, Option.some.injEq] at logs moved
      obtain rfl := moved
      exact .of_unbound (by simp [phase]) logs (bind_phaseLog ..)

theorem phaseLog_of_course {rounds : List (Round Receiver Endpoint)} {log : List LogEvent}
    {r' : Receiver} (isNew : r.phase = .starting) (course : Course Acts r rounds log r') :
    r'.path = r.path ∧ r'.PhaseLog (Round.allDeeds rounds) (milestones log) := by
  induction course with
  | start =>
    refine ⟨rfl, ?_⟩
    simp only [PhaseLog, isNew]
    exact ⟨rfl, rfl⟩
  | next before acts ih =>
    obtain ⟨same, logs⟩ := acts.phaseLog ih.2
    rw [milestones_append, Round.allDeeds_concat]
    exact ⟨(congrArg ReceiverConfig.socket same).trans ih.1, logs⟩

/-- A turn that does not find the receiver accepting leaves what is listened for as it is, but that it may
bind. -/
theorem Turn.takes (turn : r.Turn s o) (elsewhere : ∀ l deadline, r.phase ≠ .accepting l deadline) :
    r.Takes s [] o := by
  cases turn with
  | quit | start | quitLocking | release | look | quitRemoving | reclaimed | hangUp => exact .other rfl
  | lock => exact .other (Transport.lock_listening _ _)
  | lockFails => exact .other (Transport.lock_listening _ _)
  | remove => exact .other (Transport.remove_listening _ _)
  | bind phase => exact .bind phase rfl
  | bindFails phase => exact .bind phase rfl
  | overflow phase bound => exact .overflow phase bound rfl rfl
  | giveUp phase | accept phase => exact absurd phase (elsewhere _ _)
  | read phase took => exact .other (Sockets.read_wires took).1
  | readFails phase took => exact .other (Sockets.read_wires took).1
  | receive phase took => exact .other (Sockets.read_wires took).1

theorem accept_takes {l : SocketListener} {deadline : Instant} {grain : Nat}
    (phase : r.phase = .accepting l deadline) (h : r.accept l deadline ts now s = some o) :
    r.Takes s (r.accepts? ⟨grain, ts, now, s⟩).toList o := by
  unfold Receiver.accept at h
  dsimp only at h
  split at h
  next cause ended =>
    cases h
    simp only [accepts?, phase, ended]
    exact .giveUp phase rfl rfl
  next live =>
    simp only [accepts?, phase, live]
    split at h
    next accepted found =>
      rw [found]
      obtain ⟨cause, -, rfl⟩ | ⟨stream, s', -, oldest, rfl⟩ := Transport.accept_eq_some found
      · cases h
        exact .giveUp phase rfl rfl
      · cases h
        exact .accept phase oldest rfl rfl
    next nobody =>
      rw [nobody]
      split at h
      next =>
        cases h
        exact .giveUp phase rfl rfl
      next => cases h

/-- The connections that a turn is said to accept are those that it takes from the listener. -/
theorem Acts.takes {more : List Endpoint} {p : Poll} (acts : r.Acts p more o) :
    r.Takes p.sockets more o := by
  cases acts with
  | drop live =>
    cases phase : r.phase with
    | accepting l deadline =>
      simp only [abort, phase]
      exact .giveUp phase rfl rfl
    | starting | locking | reclaiming | removing | removed | binding | reading | settled =>
      exact (abort_turn live).takes (by simp [phase])
  | move moved =>
    cases phase : r.phase with
    | accepting l deadline =>
      simp only [Receiver.move, phase] at moved
      exact accept_takes phase moved
    | starting | locking | reclaiming | removing | removed | binding | reading | settled =>
      rw [accepts?_eq_none (by simp [phase])]
      exact (turn_of_does (.move _ moved)).takes (by simp [phase])

/-- Whatever goes on around it, a receive accepts no more than one connection, which it takes from
its own listener, and never ends with an I/O error of the frame. It tells of no state before its
socket is bound, and a receive that returns so early fails. From then on it tells of states that
only go forward, from listening on the way to decoding: it is done exactly when it returns a bundle,
and it has failed exactly when it returns an error, which is one of those of the state that it was
in. -/
theorem receive_goes_one_way {r r' : Receiver} {rounds : List (Round Receiver Endpoint)}
    {log : List LogEvent} (isNew : r.phase = .starting) (course : Course Acts r rounds log r') :
    (∀ round ∈ rounds, round.caller.Takes round.poll.sockets round.deeds round.outcome) ∧
      (Round.allDeeds rounds).length ≤ 1 ∧
      (∀ cause, r'.phase ≠ .settled (.returned (.error (.frame (.io cause))))) ∧
      (milestones log = [] ∧
          (∀ result, r'.phase = .settled (.returned result) → ∃ e, result = .error e) ∨
        ∃ states, milestones log = trail r.path states ∧ states.head? = some .listening ∧ Forward states ∧
          (∀ bundle, r'.phase = .settled (.returned (.ok bundle)) → states = way ++ [.done]) ∧
          (∀ e, r'.phase = .settled (.returned (.error e)) → ∃ passed state,
            passed ++ [state] <+: way ∧ state.FailsWith e ∧ states = passed ++ [state, .failed]) ∧
          ((∀ result, r'.phase ≠ .settled (.returned result)) → states <+: way)) := by
  have takes : ∀ round ∈ rounds, round.caller.Takes round.poll.sockets round.deeds round.outcome :=
    (course.forall_rounds (i := fun _ => True) trivial fun _ acts => ⟨trivial, acts.takes⟩).2
  refine ⟨takes, ?_⟩
  obtain ⟨path, logs⟩ := phaseLog_of_course isNew course
  rw [← path]
  generalize milestones log = told, Round.allDeeds rounds = accepted at logs
  cases phase : r'.phase with
  | starting | locking | reclaiming | removing | removed | binding =>
    simp only [PhaseLog, phase] at logs
    obtain ⟨rfl, rfl⟩ := logs
    exact ⟨by simp, by simp, .inl ⟨rfl, by simp⟩⟩
  | accepting l deadline =>
    simp only [PhaseLog, phase] at logs
    obtain ⟨rfl, rfl⟩ := logs
    exact ⟨by simp, by simp, .inr ⟨_, rfl, rfl, by decide, by simp, by simp, fun _ => by decide⟩⟩
  | reading stream deadline reader =>
    simp only [PhaseLog, phase] at logs
    obtain ⟨rfl, rfl⟩ := logs
    exact ⟨by simp, by simp, .inr ⟨_, rfl, rfl, by decide, by simp, by simp, fun _ => by decide⟩⟩
  | settled result =>
    simp only [PhaseLog, phase] at logs
    cases logs with
    | refuse own =>
      refine ⟨by simp, ?_, .inl ⟨rfl, ?_⟩⟩
      · rintro cause ⟨⟩
        exact own cause rfl
      · rintro result ⟨⟩
        exact ⟨_, rfl⟩
    | @fail passed state e accepted along fails once =>
      have starts := ReceiverState.starts_of_prefix along (by simp) [.failed]
      have forward := ReceiverState.forward_of_prefix along (List.Sublist.refl [ReceiverState.failed])
      rw [List.append_assoc] at starts forward
      refine ⟨once, ?_, .inr ⟨_, rfl, starts, forward, by simp, ?_, by simp⟩⟩
      · rintro cause ⟨⟩
        exact fails.ne_frame_io cause rfl
      · rintro e' ⟨⟩
        exact ⟨passed, state, along, fails, rfl⟩
    | done bundle stream =>
      exact ⟨by simp, by simp, .inr ⟨_, rfl, rfl, by decide, by simp, by simp, by simp⟩⟩
    | leave cut => exact ⟨by simp, by simp [cut], .inl ⟨rfl, by simp [cut]⟩⟩
    | leaveBound states cut along bound once =>
      have starts := ReceiverState.starts_of_prefix along bound []
      have forward := ReceiverState.forward_of_prefix along (List.nil_sublist _)
      rw [List.append_nil] at starts forward
      exact ⟨once, by simp [cut], .inr ⟨states, rfl, starts, forward, by simp [cut], by simp [cut],
        fun _ => along⟩⟩

/-- A receiver and a sender side by side: the receiver tells of the whole way. -/
theorem receive_goes_one_way_one_of_each :
    ∃ a r' rounds, (Exchange.clockwork.run 9 (0, Exchange.oneOfEach)).2.actors[0]? = some a ∧
      Course Acts ⟨.withSocket "s", .binary, .ofToken ⟨0, []⟩, .starting⟩ rounds a.log r' ∧
      (∀ round ∈ rounds, round.caller.Takes round.poll.sockets round.deeds round.outcome) ∧
      (Round.allDeeds rounds).length ≤ 1 ∧ milestones a.log = trail "s" (way ++ [.done]) := by
  have run := Exchange.run_of_reaches (Exchange.clockwork.reaches_run 9 (0, Exchange.oneOfEach))
  obtain ⟨a, r', rounds, log, here, role, logged, course⟩ :=
    Exchange.receiver_course_of_run run (k := 0) rfl rfl
  have whole : ∃ a, (Exchange.clockwork.run 9 (0, Exchange.oneOfEach)).2.actors[0]? = some a ∧
      a.role = .receiver ⟨.withSocket "s", .binary, .ofToken ⟨0, []⟩,
        .settled (.returned (.ok [⟨.tdxReport, [1, 2], [3]⟩]))⟩ := ⟨_, rfl, rfl⟩
  obtain ⟨a', here', role'⟩ := whole
  obtain rfl := Option.some.inj (here.symm.trans here')
  obtain rfl := Role.receiver.inj (role.symm.trans role')
  rw [show log = a.log from logged.symm] at course
  obtain ⟨takes, once, -, ⟨-, fails⟩ | ⟨states, told, -, -, done, -⟩⟩ := receive_goes_one_way rfl course
  · obtain ⟨e, failed⟩ := fails _ rfl
    cases failed
  · exact ⟨a, _, rounds, here, course, takes, once, done _ rfl ▸ told⟩

end Receiver

end EvidenceExchange
