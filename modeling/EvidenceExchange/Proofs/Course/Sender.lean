import EvidenceExchange.Proofs.Course.Basic
import EvidenceExchange.Proofs.Delivery

namespace EvidenceExchange

def LogEvent.isSenderMilestone : LogEvent → Bool
  | senderMoved .. => true
  | _ => false

theorem Frame.payloadTooLarge_of_encode {payload : Bytes} {e : FrameError}
    (unframed : encode payload = .error e) : e = .payloadTooLarge payload.length maxPayload := by
  rw [encode, encodeWithin_eq] at unframed
  split at unframed
  next => cases unframed
  next => exact (Except.error.inj unframed).symm

theorem Sockets.modifyConnection_congr {s : Sockets} {id : Nat} {c : Connection}
    {f g : Connection → Connection} (here : s.connections[id]? = some c) (same : f c = g c) :
    s.modifyConnection id f = s.modifyConnection id g := by
  have modified : s.connections.modify id f = s.connections.modify id g := by
    refine List.ext_getElem? fun i => ?_
    rw [List.getElem?_modify, List.getElem?_modify]
    by_cases at_id : id = i
    · subst at_id
      simp [here, same]
    · simp [at_id]
  rw [modifyConnection, modified, modifyConnection]

namespace Sender

/-- A write is the whole of what it takes, even of nothing. -/
theorem Deed.leads_write {path : String} {stream : Endpoint} {rest : Bytes} {grain count : Nat}
    {s s' : Sockets} (wrote : s.write stream rest grain = (.wrote count, s')) :
    (Deed.write stream (rest.take count)).Leads path s s' := by
  unfold Sockets.write at wrote
  split at wrote
  next => cases wrote
  next here =>
    dsimp only at wrote
    split at wrote
    next empty =>
      cases wrote
      have same : (fun c : Connection => c.setOutgoing stream.side
          ((c.outgoing stream.side).write (rest.take 0))) = id := by
        funext c
        rw [List.take_zero, Pipe.write, List.append_nil]
        cases stream.side <;> rfl
      rw [Deed.Leads, same, Sockets.modifyConnection, List.modify_id]
    next =>
      split at wrote
      next => cases wrote
      next =>
        split at wrote
        next => cases wrote
        next =>
          cases wrote
          exact Sockets.modifyConnection_congr here rfl

/-- An attempt is over as soon as it is polled. -/
theorem move_trying (path : String) (policy : RetryPolicy) {c : Context} {ts : Tokens} {now : Nat}
    (live : c.pollDone ts now = none) (attempt : Nat) (work : Unit) (s : Sockets) :
    (Retry.trying attempt work).move (connecting path) policy c ts now s =
      match s.connect path with
      | (.ok stream, s') => some (.settled (.ok stream), s', [])
      | (.error e, s') =>
        let (next, event) := Retry.afterFailure (connecting path) policy now attempt e
        some (next, s', [event]) := by
  simp only [Retry.move, live, connecting, Transport.connect]
  obtain ⟨result, s'⟩ := s.connect path
  cases result <;> rfl

theorem deeds_trying (d : Sender) (payload : Bytes) (attempt : Nat) (work : Unit) (p : Poll) :
    (d.goTo (.connecting payload (.trying attempt work))).deeds p =
      if (d.context.pollDone p.tokens p.now).isSome then []
      else connectDeeds d.path payload p.sockets :=
  rfl

theorem deeds_writing (d : Sender) (payload : Bytes) (stream : Endpoint) (rest : Bytes) (p : Poll) :
    (d.goTo (.writing payload stream rest)).deeds p =
      if (d.context.pollDone p.tokens p.now).isSome then [.close stream]
      else writeDeeds stream rest p.grain p.sockets :=
  rfl

section sockets

variable {d : Sender} {payload : Bytes} {p : Poll} {o : Outcome Sender}

theorem connect_leads {retry : Retry Unit Endpoint IoError}
    (moved : d.connect payload retry p.tokens p.now p.sockets = some o) :
    Lead d.path p.sockets ((d.goTo (.connecting payload retry)).deeds p) o.sockets := by
  cases retry with
  | calling attempt =>
    simp only [connect, Retry.move, connecting] at moved
    split at moved <;> cases moved <;> rfl
  | pausing attempt wake =>
    simp only [connect, Retry.move] at moved
    split at moved
    next =>
      cases moved
      rfl
    next =>
      split at moved <;> cases moved
      rfl
  | settled => cases moved
  | trying attempt work =>
    rw [deeds_trying]
    cases ends : d.context.pollDone p.tokens p.now with
    | some cause =>
      simp only [connect, Retry.move, ends] at moved
      cases moved
      rfl
    | none =>
      rw [connect, move_trying _ _ ends] at moved
      rw [Option.isSome_none, if_neg Bool.false_ne_true]
      generalize tried : p.sockets.connect d.path = attempted at moved
      obtain ⟨result, s'⟩ := attempted
      simp only [connectDeeds, tried]
      refine ⟨s', tried, ?_⟩
      cases result with
      | error e =>
        simp only [Retry.afterFailure] at moved
        split at moved <;> cases moved <;> rfl
      | ok stream =>
        cases moved
        dsimp only [connected]
        cases Frame.encode payload with
        | error e => exact ⟨_, rfl, rfl⟩
        | ok frame => rfl

theorem write_leads {stream : Endpoint} {rest : Bytes}
    (moved : d.write payload stream rest p.grain p.tokens p.now p.sockets = some o) :
    Lead d.path p.sockets ((d.goTo (.writing payload stream rest)).deeds p) o.sockets := by
  rw [deeds_writing]
  unfold Sender.write at moved
  cases ends : d.context.pollDone p.tokens p.now with
  | some cause =>
    simp only [ends] at moved
    cases moved
    exact ⟨_, rfl, rfl⟩
  | none =>
    simp only [ends] at moved
    rw [Option.isSome_none, if_neg Bool.false_ne_true, writeDeeds]
    split at moved
    next count s' took =>
      rw [took]
      refine ⟨s', Deed.leads_write took, ?_⟩
      split at moved
      next all =>
        cases moved
        rw [if_pos all]
        exact ⟨_, rfl, _, rfl, rfl⟩
      next more =>
        cases moved
        rw [if_neg more]
        rfl
    next s' took =>
      obtain rfl := Sockets.write_broken took
      rw [took]
      cases moved
      exact ⟨_, rfl, rfl⟩
    next => cases moved

/-- What a sender does is all that it changes. -/
theorem Acts.leads {more : List Deed} (acts : d.Acts p more o) : Lead d.path p.sockets more o.sockets := by
  obtain ⟨config, codec, context, bundle, phase⟩ := d
  cases acts with
  | drop live =>
    cases phase with
    | starting | connecting => rfl
    | writing => exact ⟨_, rfl, rfl⟩
    | settled => cases live
  | move moved =>
    cases phase with
    | starting =>
      cases moved
      unfold start
      split
      next => rfl
      next => split <;> rfl
    | connecting payload retry => exact connect_leads moved
    | writing payload stream rest => exact write_leads moved
    | settled => cases moved

end sockets

/-- The events that tell how far a send has come. -/
def milestones (log : List LogEvent) : List LogEvent := log.filter LogEvent.isSenderMilestone

@[simp]
theorem milestones_append (log log' : List LogEvent) :
    milestones (log ++ log') = milestones log ++ milestones log' :=
  List.filter_append ..

/-- What is logged of a send at a path that has gone through some states. -/
def trail (path : String) (states : List SenderState) : List LogEvent :=
  (transitions states).map fun (old, new) => .senderMoved path old new

/-- The deeds of a sender that has failed to connect so often. -/
def failures (causes : List IoError) : List Deed := causes.map fun e => .connect (.error e)

/-- The deeds of a sender that has connected, with what it has written and how it left the connection. -/
def connectedDeeds (causes : List IoError) (stream : Endpoint) (chunks : List Bytes)
    (finale : List Deed) : List Deed :=
  failures causes ++ .connect (.ok stream) :: (chunks.map (.write stream) ++ finale)

/-- The last poll found that the context had ended. -/
def FoundEnded (c : Context) (polls : List Poll) (cause : Cancellation) : Prop :=
  ∃ p, polls.getLast? = some p ∧ c.ended? p.tokens p.now = some cause

/-- How a send fails that has not connected. -/
inductive FailsOutside (d : Sender) (polls : List Poll) (causes : List IoError) :
    ExchangeError → Prop
  | exhausted {last} (all : causes.length = d.config.retryPolicy.maxAttempts)
      (final : causes.getLast? = some last) :
      FailsOutside d polls causes (.connectFailed d.path d.config.retryPolicy.maxAttempts last)
  | ended {cause} (found : FoundEnded d.context polls cause) :
      FailsOutside d polls causes (.ofCancellation cause)

/-- How a send fails that has connected and written some chunks. -/
inductive FailsInside (d : Sender) (polls : List Poll) (payload : Bytes) (chunks : List Bytes) :
    ExchangeError → Prop
  | tooLarge {size max} (unframed : Frame.encode payload = .error (.payloadTooLarge size max))
      (nothing : chunks = []) : FailsInside d polls payload chunks (.frame (.payloadTooLarge size max))
  | io (cause : IoError) : FailsInside d polls payload chunks (.io cause)
  | ended {cause} (found : FoundEnded d.context polls cause) :
      FailsInside d polls payload chunks (.ofCancellation cause)

/-- What has been written is part of the frame, and nothing is if there is none. -/
def Along (payload : Bytes) (chunks : List Bytes) : Prop :=
  match Frame.encode payload with
  | .ok frame => chunks.flatten <+: frame
  | .error _ => chunks = []

/-- How many attempts have failed where the retries stand, out of so many. -/
def Failed (attempts count : Nat) : Retry Unit Endpoint IoError → Prop
  | .calling attempt | .trying attempt _ => attempt = count + 1 ∧ count < attempts
  | .pausing attempt _ => attempt = count ∧ count < attempts
  | .settled _ => False

theorem Failed.within {attempts count : Nat} {retry : Retry Unit Endpoint IoError}
    (failed : Failed attempts count retry) : count ≤ attempts := by
  cases retry with
  | calling | trying | pausing => exact failed.2.le
  | settled => exact failed.elim

/-- The deeds and the milestones of a send that has a payload, in each phase. -/
inductive PhaseLog (d : Sender) (payload : Bytes) (polls : List Poll) :
    Phase → List Deed → List LogEvent → Prop
  | starting : PhaseLog d payload polls .starting [] []
  | connecting {causes retry} (failed : Failed d.config.retryPolicy.maxAttempts causes.length retry) :
      PhaseLog d payload polls (.connecting payload retry) (failures causes) []
  | writing {causes stream chunks rest} (left : causes.length < d.config.retryPolicy.maxAttempts)
      (framed : Frame.encode payload = .ok (chunks.flatten ++ rest)) :
      PhaseLog d payload polls (.writing payload stream rest) (connectedDeeds causes stream chunks [])
        (trail d.path [.connecting, .writing])
  | failOutside {causes e} (within : causes.length ≤ d.config.retryPolicy.maxAttempts)
      (fails : d.FailsOutside polls causes e) :
      PhaseLog d payload polls (.settled (.returned (.error e))) (failures causes)
        (trail d.path [.connecting, .failed])
  | failInside {causes stream chunks e} (left : causes.length < d.config.retryPolicy.maxAttempts)
      (along : Along payload chunks) (fails : d.FailsInside polls payload chunks e) :
      PhaseLog d payload polls (.settled (.returned (.error e)))
        (connectedDeeds causes stream chunks [.close stream])
        (trail d.path [.connecting, .writing, .failed])
  | deliver {causes stream chunks} (left : causes.length < d.config.retryPolicy.maxAttempts)
      (whole : Frame.encode payload = .ok chunks.flatten) :
      PhaseLog d payload polls (.settled (.returned (.ok ())))
        (connectedDeeds causes stream chunks [.shutdown stream, .close stream])
        (trail d.path [.connecting, .writing, .done])
  | dropOutside {causes} (within : causes.length ≤ d.config.retryPolicy.maxAttempts) :
      PhaseLog d payload polls (.settled .aborted) (failures causes) []
  | dropInside {causes stream chunks} (left : causes.length < d.config.retryPolicy.maxAttempts)
      (along : Along payload chunks) :
      PhaseLog d payload polls (.settled .aborted) (connectedDeeds causes stream chunks [.close stream])
        (trail d.path [.connecting, .writing])

/-- A turn leads to a phase that what it adds to the deeds and milestones before fits. -/
def PhaseLogAfter (d : Sender) (payload : Bytes) (polls : List Poll) (deeds : List Deed) (told : List LogEvent)
    (more : List Deed) (o : Outcome Sender) : Prop :=
  ∃ phase, o.value = d.goTo phase ∧
    d.PhaseLog payload polls phase (deeds ++ more) (told ++ milestones o.log)

variable {d : Sender} {payload : Bytes} {polls : List Poll} {causes : List IoError} {p : Poll}
  {o : Outcome Sender}

theorem failures_concat (causes : List IoError) (e : IoError) :
    failures causes ++ [.connect (.error e)] = failures (causes ++ [e]) := by
  simp [failures]

theorem connectedDeeds_append (causes : List IoError) (stream : Endpoint) (chunks : List Bytes)
    (more : List Deed) :
    connectedDeeds causes stream chunks [] ++ more = connectedDeeds causes stream chunks more := by
  simp [connectedDeeds]

theorem connectedDeeds_write (causes : List IoError) (stream : Endpoint) (chunks : List Bytes)
    (chunk : Bytes) (finale : List Deed) :
    connectedDeeds causes stream chunks (.write stream chunk :: finale) =
      connectedDeeds causes stream (chunks ++ [chunk]) finale := by
  simp [connectedDeeds]

theorem along_of_framed {chunks : List Bytes} {rest : Bytes}
    (framed : Frame.encode payload = .ok (chunks.flatten ++ rest)) : Along payload chunks := by
  simp [Along, framed]

theorem foundEnded_concat {c : Context} {cause : Cancellation}
    (ended : c.pollDone p.tokens p.now = some cause) : FoundEnded c (polls ++ [p]) cause :=
  ⟨p, List.getLast?_concat, by rwa [Context.pollDone_eq_ended?] at ended⟩

section connecting

variable {work : Unit} {attempt : Nat}

theorem failOutside_phaseLog {cause : Cancellation} {s : Sockets}
    (within : causes.length ≤ d.config.retryPolicy.maxAttempts)
    (ended : d.context.pollDone p.tokens p.now = some cause) :
    d.PhaseLogAfter payload (polls ++ [p]) (failures causes) [] []
      (d.fail .connecting (.ofCancellation cause) s []) := by
  refine ⟨_, rfl, ?_⟩
  rw [List.append_nil]
  exact .failOutside within (.ended (foundEnded_concat ended))

theorem calling_phaseLog
    (failed : Failed d.config.retryPolicy.maxAttempts causes.length (.calling attempt))
    (moved : d.connect payload (.calling attempt) p.tokens p.now p.sockets = some o) :
    d.PhaseLogAfter payload (polls ++ [p]) (failures causes) [] [] o := by
  simp only [connect, Retry.move, connecting] at moved
  split at moved
  next cause ended =>
    cases moved
    rw [← Context.pollDone_eq_ended?] at ended
    exact failOutside_phaseLog failed.2.le ended
  next =>
    cases moved
    refine ⟨_, rfl, ?_⟩
    rw [List.append_nil]
    exact .connecting failed

theorem pausing_phaseLog {wake : Nat}
    (failed : Failed d.config.retryPolicy.maxAttempts causes.length (.pausing attempt wake))
    (moved : d.connect payload (.pausing attempt wake) p.tokens p.now p.sockets = some o) :
    d.PhaseLogAfter payload (polls ++ [p]) (failures causes) [] [] o := by
  obtain ⟨rfl, left⟩ := failed
  simp only [connect, Retry.move] at moved
  split at moved
  next cause ended =>
    cases moved
    exact failOutside_phaseLog left.le ended
  next =>
    split at moved
    next =>
      cases moved
      refine ⟨_, rfl, ?_⟩
      rw [List.append_nil]
      exact .connecting ⟨rfl, left⟩
    next => cases moved

theorem trying_phaseLog
    (failed : Failed d.config.retryPolicy.maxAttempts causes.length (.trying attempt work))
    (moved : d.connect payload (.trying attempt work) p.tokens p.now p.sockets = some o) :
    d.PhaseLogAfter payload (polls ++ [p]) (failures causes) []
      ((d.goTo (.connecting payload (.trying attempt work))).deeds p) o := by
  obtain ⟨rfl, left⟩ := failed
  rw [deeds_trying]
  cases ends : d.context.pollDone p.tokens p.now with
  | some cause =>
    simp only [connect, Retry.move, ends] at moved
    cases moved
    rw [Option.isSome_some, if_pos rfl]
    exact failOutside_phaseLog left.le ends
  | none =>
    rw [connect, move_trying _ _ ends] at moved
    rw [Option.isSome_none, if_neg Bool.false_ne_true, connectDeeds]
    generalize p.sockets.connect d.path = tried at moved ⊢
    obtain ⟨error | stream, s'⟩ := tried
    · have more : (causes ++ [error]).length = causes.length + 1 := by simp
      simp only [Retry.afterFailure] at moved ⊢
      split at moved
      next last =>
        have all : (causes ++ [error]).length = d.config.retryPolicy.maxAttempts := by omega
        cases moved
        refine ⟨_, rfl, ?_⟩
        rw [failures_concat, ← more, all]
        exact .failOutside all.le (.exhausted all List.getLast?_concat)
      next =>
        cases moved
        refine ⟨_, rfl, ?_⟩
        rw [failures_concat]
        exact .connecting ⟨more.symm, by omega⟩
    · cases moved
      dsimp only [connected]
      cases framed : Frame.encode payload with
      | error e =>
        obtain rfl := Frame.payloadTooLarge_of_encode framed
        have along : Along payload [] := by simp [Along, framed]
        exact ⟨_, rfl, .failInside left along (.tooLarge framed rfl)⟩
      | ok frame =>
        have start : Frame.encode payload = .ok (([] : List Bytes).flatten ++ frame) := framed
        exact ⟨_, rfl, .writing left start⟩

end connecting

theorem write_phaseLog {stream : Endpoint} {rest : Bytes} {chunks : List Bytes}
    (left : causes.length < d.config.retryPolicy.maxAttempts)
    (framed : Frame.encode payload = .ok (chunks.flatten ++ rest))
    (moved : d.write payload stream rest p.grain p.tokens p.now p.sockets = some o) :
    d.PhaseLogAfter payload (polls ++ [p]) (connectedDeeds causes stream chunks [])
      (trail d.path [.connecting, .writing]) ((d.goTo (.writing payload stream rest)).deeds p) o := by
  have along := along_of_framed framed
  unfold PhaseLogAfter
  rw [connectedDeeds_append, deeds_writing]
  unfold Sender.write at moved
  cases ends : d.context.pollDone p.tokens p.now with
  | some cause =>
    simp only [ends] at moved
    cases moved
    exact ⟨_, rfl, .failInside left along (.ended (foundEnded_concat ends))⟩
  | none =>
    simp only [ends] at moved
    rw [Option.isSome_none, if_neg Bool.false_ne_true, writeDeeds]
    split at moved
    next count s' took =>
      rw [took]
      dsimp only
      -- What is written moves from the rest of the frame to the chunks.
      have moved_on : chunks.flatten ++ rest = (chunks ++ [rest.take count]).flatten ++ rest.drop count := by
        simp
      rw [moved_on] at framed
      rw [connectedDeeds_write]
      split at moved
      next all =>
        cases moved
        rw [if_pos all]
        rw [all, List.append_nil] at framed
        exact ⟨_, rfl, .deliver left framed⟩
      next more =>
        cases moved
        rw [if_neg more]
        exact ⟨_, rfl, .writing left framed⟩
    next s' took =>
      rw [took]
      cases moved
      exact ⟨_, rfl, .failInside left along (.io _)⟩
    next => cases moved

theorem abort_phaseLog {phase : Phase} {deeds : List Deed} {told : List LogEvent}
    (live : (d.goTo phase).isOver = false) (logs : d.PhaseLog payload polls phase deeds told)
    (s : Sockets) :
    d.PhaseLogAfter payload (polls ++ [p]) deeds told (d.goTo phase).dropDeeds ((d.goTo phase).abort s) := by
  cases logs with
  | starting =>
    have idle : d.PhaseLog payload (polls ++ [p]) (.settled .aborted) (failures []) [] :=
      .dropOutside (Nat.zero_le _)
    exact ⟨_, rfl, idle⟩
  | @connecting causes retry failed =>
    refine ⟨_, rfl, ?_⟩
    rw [dropDeeds, goTo, List.append_nil]
    exact .dropOutside failed.within
  | writing left framed =>
    refine ⟨_, rfl, ?_⟩
    rw [dropDeeds, goTo, connectedDeeds_append]
    exact .dropInside left (along_of_framed framed)
  | failOutside | failInside | deliver | dropOutside | dropInside => cases live

/-- A turn leads from a phase that fits the deeds and milestones so far to one that fits those after it. -/
theorem Acts.phaseLog {phase : Phase} {deeds more : List Deed} {told : List LogEvent}
    (acts : (d.goTo phase).Acts p more o) (valid : d.config.validate = .ok ())
    (encoded : d.codec.encode d.bundle = .ok payload)
    (logs : d.PhaseLog payload polls phase deeds told) :
    d.PhaseLogAfter payload (polls ++ [p]) deeds told more o := by
  cases acts with
  | drop live => exact abort_phaseLog live logs _
  | move moved =>
    cases logs with
    | starting =>
      have none : Failed d.config.retryPolicy.maxAttempts ([] : List IoError).length .start :=
        ⟨rfl, by simp [RetryPolicy.maxAttempts]⟩
      simp only [Sender.move, goTo, start, valid, encoded] at moved
      cases moved
      exact ⟨_, rfl, .connecting none⟩
    | @connecting causes retry failed =>
      cases retry with
      | calling attempt => exact calling_phaseLog failed moved
      | pausing attempt wake => exact pausing_phaseLog failed moved
      | trying attempt work => exact trying_phaseLog failed moved
      | settled => exact failed.elim
    | writing left framed => exact write_phaseLog left framed moved
    | failOutside | failInside | deliver | dropOutside | dropInside => cases moved

theorem phaseLog_of_course {rounds : List (Round Sender Deed)} {log : List LogEvent} {d' : Sender}
    (isNew : d.phase = .starting) (valid : d.config.validate = .ok ())
    (encoded : d.codec.encode d.bundle = .ok payload) (course : Course Acts d rounds log d') :
    ∃ phase, d' = d.goTo phase ∧
      d.PhaseLog payload (Round.polls rounds) phase (Round.allDeeds rounds) (milestones log) := by
  induction course with
  | start => exact ⟨.starting, by rw [← isNew]; rfl, .starting⟩
  | next before acts ih =>
    obtain ⟨phase, rfl, logs⟩ := ih
    obtain ⟨next, here, logs⟩ := acts.phaseLog valid encoded logs
    rw [milestones_append, Round.polls_concat, Round.allDeeds_concat]
    exact ⟨next, here, logs⟩

theorem Acts.turn {more : List Deed} (acts : d.Acts p more o) : d.Turn p.sockets o := by
  cases acts with
  | move moved => exact turn_of_does (.move _ moved)
  | drop live => exact abort_turn live

/-- All that a send changes, at each of its turns, is what its deeds change, in their order. -/
theorem leads_of_course {rounds : List (Round Sender Deed)} {log : List LogEvent} {d' : Sender}
    (course : Course Acts d rounds log d') :
    ∀ round ∈ rounds, Lead d.path round.poll.sockets round.deeds round.outcome.sockets := by
  have same : ∃ phase, d = d.goTo phase := ⟨d.phase, rfl⟩
  refine (course.forall_rounds (i := fun b => ∃ phase, b = d.goTo phase) same ?_).2
  rintro b p deeds o ⟨phase, rfl⟩ acts
  exact ⟨acts.turn.same_call, acts.leads⟩

/-- What a sender waits for that has nothing to do as its context goes on: the end of its pause, or room
for its next bytes. -/
def Waits (d : Sender) (p : Poll) : Prop :=
  d.context.pollDone p.tokens p.now = none ∧
    match d.phase with
    | .connecting _ (.pausing _ wake) => p.now < wake
    | .writing _ stream rest => (p.sockets.write stream rest p.grain).1 = .blocked
    | _ => False

/-- A sender does not go on connecting when its retries are over. -/
def Retrying (d : Sender) : Prop := ∀ payload result, d.phase ≠ .connecting payload (.settled result)

theorem Turn.retrying {s : Sockets} (turn : d.Turn s o) : o.value.Retrying := by
  cases turn with
  | retry phase goesOn silent =>
    rintro payload result ⟨⟩
    exact goesOn result rfl
  | quit | start | connect | connectFails | write | deliver | hangUp => simp [Retrying, goTo, Retry.start]

theorem retry_waits {policy : RetryPolicy} {retry : Retry Unit Endpoint IoError} {s : Sockets}
    {path : String} {c : Context} {ts : Tokens} {now : Nat}
    (unsettled : ∀ result, retry ≠ .settled result)
    (idle : retry.move (connecting path) policy c ts now s = none) :
    c.pollDone ts now = none ∧ ∃ attempt wake, retry = .pausing attempt wake ∧ now < wake := by
  cases retry with
  | calling attempt =>
    simp only [Retry.move, connecting] at idle
    split at idle <;> cases idle
  | trying attempt work =>
    simp only [Retry.move, connecting] at idle
    split at idle
    next => cases idle
    next => split at idle <;> simp_all
  | pausing attempt wake =>
    simp only [Retry.move] at idle
    split at idle
    next => cases idle
    next live =>
      split at idle
      next => cases idle
      next early => exact ⟨live, attempt, wake, rfl, Nat.lt_of_not_le early⟩
  | settled result => exact absurd rfl (unsettled result)

theorem over_or_waits (retrying : d.Retrying)
    (idle : d.move p.grain p.tokens p.now p.sockets = none) : d.isOver = true ∨ d.Waits p := by
  unfold Sender.move at idle
  cases phase : d.phase with
  | starting => simp [phase] at idle
  | connecting payload retry =>
    simp only [phase] at idle
    have unsettled : ∀ result, retry ≠ .settled result := by
      rintro result rfl
      exact retrying _ _ phase
    obtain ⟨live, attempt, wake, rfl, early⟩ := retry_waits unsettled (Option.map_eq_none_iff.mp idle)
    exact .inr ⟨live, by simpa only [phase] using early⟩
  | writing payload stream rest =>
    simp only [phase, write] at idle
    split at idle
    next => cases idle
    next live =>
      split at idle
      next => split at idle <;> cases idle
      next => cases idle
      next blocked => exact .inr ⟨live, by simp only [phase, blocked]⟩
  | settled => simp [isOver, phase]

/-- A send that is refused before it does anything. -/
structure Refused (d : Sender) (e : ExchangeError) (deeds : List Deed) (log : List LogEvent)
    (d' : Sender) : Prop where
  idle : deeds = []
  silent : log = []
  /-- At its first poll, whatever it finds then. -/
  first : ∀ p : Poll, d.move p.grain p.tokens p.now p.sockets = some ⟨d.finish (.error e), p.sockets, []⟩
  result : ∀ result, d'.phase = .settled (.returned result) → result = .error e

theorem refused_of_course {e : ExchangeError} {rounds : List (Round Sender Deed)} {log : List LogEvent}
    {d' : Sender} (isNew : d.phase = .starting) (refuses : ∀ s, d.start s = ⟨d.finish (.error e), s, []⟩)
    (course : Course Acts d rounds log d') : d.Refused e (Round.allDeeds rounds) log d' := by
  have first : ∀ p : Poll, d.move p.grain p.tokens p.now p.sockets =
      some ⟨d.finish (.error e), p.sockets, []⟩ := by
    intro p
    simp only [Sender.move, isNew, refuses]
  have stays : Round.allDeeds rounds = [] ∧ log = [] ∧
      (d' = d ∨ d' = d.finish (.error e) ∨ d' = d.goTo (.settled .aborted)) := by
    induction course with
    | start => exact ⟨rfl, rfl, .inl rfl⟩
    | @next _ _ _ p _ _ before acts ih =>
      obtain ⟨idle, rfl, rfl | rfl | rfl⟩ := ih
      · rw [Round.allDeeds_concat, idle]
        cases acts with
        | move moved =>
          cases (first p).symm.trans moved
          simp [Sender.deeds, isNew]
        | drop live => simp [dropDeeds, abort, isNew]
      · cases acts with
        | move moved => cases moved
        | drop live => cases live
      · cases acts with
        | move moved => cases moved
        | drop live => cases live
  obtain ⟨idle, silent, same⟩ := stays
  refine ⟨idle, silent, first, ?_⟩
  rintro result settled
  obtain rfl | rfl | rfl := same
  · simp [isNew] at settled
  · cases settled
    rfl
  · cases settled

/-- Where a send stands that has not connected, with the states that it has told of. -/
def Outside (d : Sender) (polls : List Poll) (causes : List IoError) (states : List SenderState) :
    Phase → Prop
  | .settled (.returned result) =>
    states = [.connecting, .failed] ∧ ∃ e, result = .error e ∧ d.FailsOutside polls causes e
  | _ => states = [.connecting]

/-- Where a send stands that has connected and written some chunks, with the states that it has told of
and what it has done last. -/
def Inside (d : Sender) (polls : List Poll) (payload : Bytes) (stream : Endpoint) (chunks : List Bytes)
    (finale : List Deed) (states : List SenderState) : Phase → Prop
  | .settled (.returned (.ok ())) =>
    states = [.connecting, .writing, .done] ∧ finale = [.shutdown stream, .close stream] ∧
      Frame.encode payload = .ok chunks.flatten
  | .settled (.returned (.error e)) =>
    states = [.connecting, .writing, .failed] ∧ finale = [.close stream] ∧
      d.FailsInside polls payload chunks e
  | _ => states = [.connecting, .writing] ∧ (finale = [] ∨ finale = [.close stream])

theorem FailsOutside.ne_frame {e : ExchangeError} (fails : d.FailsOutside polls causes e)
    (cause : FrameError) : e ≠ .frame cause := by
  cases fails with
  | exhausted => simp
  | ended found => exact ExchangeError.ofCancellation_ne_frame _ _

theorem FailsInside.ne_frame_io {chunks : List Bytes} {e : ExchangeError}
    (fails : d.FailsInside polls payload chunks e) (cause : IoError) : e ≠ .frame (.io cause) := by
  cases fails with
  | tooLarge | io => simp
  | ended found => exact ExchangeError.ofCancellation_ne_frame _ _

theorem PhaseLog.outside_or_inside {phase : Phase} {deeds : List Deed} {told : List LogEvent}
    (logs : d.PhaseLog payload polls phase deeds told) :
    ∃ causes states, told = trail d.path states ∧ Forward states ∧
      (causes.length ≤ d.config.retryPolicy.maxAttempts ∧ deeds = failures causes ∧
          d.Outside polls causes states phase ∨
        ∃ stream chunks finale, causes.length < d.config.retryPolicy.maxAttempts ∧
          deeds = connectedDeeds causes stream chunks finale ∧ Along payload chunks ∧
          d.Inside polls payload stream chunks finale states phase) := by
  cases logs with
  | starting =>
    exact ⟨[], [.connecting], rfl, by decide, .inl ⟨Nat.zero_le _, rfl, rfl⟩⟩
  | @connecting causes retry failed =>
    exact ⟨causes, [.connecting], rfl, by decide, .inl ⟨failed.within, rfl, rfl⟩⟩
  | @writing causes stream chunks rest left framed =>
    exact ⟨causes, _, rfl, by decide,
      .inr ⟨stream, chunks, [], left, rfl, along_of_framed framed, rfl, .inl rfl⟩⟩
  | @failOutside causes e within fails =>
    exact ⟨causes, _, rfl, by decide, .inl ⟨within, rfl, rfl, e, rfl, fails⟩⟩
  | @failInside causes stream chunks e left along fails =>
    exact ⟨causes, _, rfl, by decide, .inr ⟨stream, chunks, _, left, rfl, along, rfl, rfl, fails⟩⟩
  | @deliver causes stream chunks left whole =>
    have along : Along payload chunks := by simp [Along, whole]
    exact ⟨causes, _, rfl, by decide, .inr ⟨stream, chunks, _, left, rfl, along, rfl, rfl, whole⟩⟩
  | @dropOutside causes within =>
    exact ⟨causes, [.connecting], rfl, by decide, .inl ⟨within, rfl, rfl⟩⟩
  | @dropInside causes stream chunks left along =>
    exact ⟨causes, _, rfl, by decide, .inr ⟨stream, chunks, _, left, rfl, along, rfl, .inr rfl⟩⟩

/-- Whatever goes on around it, a send changes nothing but by its deeds, and a poll that it does not go
on with finds it over, in a pause or with no room for its bytes. It is refused at its first poll, for
its configuration or else for its bundle, and then does and tells nothing. Or it tries to connect, no
more often than its policy says, and connects once at most: that is the end of its attempts. All that
it writes to the connection is part of the frame of its payload, and it is the whole frame, with the
writing side closed after it, if the send returns without an error. The states that it tells of go
forward only and are done exactly then, and every other return is one of the failures of a send that
has not connected, or that has. -/
theorem send_connects_once {d' : Sender} {rounds : List (Round Sender Deed)} {log : List LogEvent}
    (isNew : d.phase = .starting) (course : Course Acts d rounds log d') :
    let polls := Round.polls rounds
    let deeds := Round.allDeeds rounds
    (∀ round ∈ rounds, Lead d.path round.poll.sockets round.deeds round.outcome.sockets) ∧
      (∀ p : Poll, d'.move p.grain p.tokens p.now p.sockets = none → d'.isOver = true ∨ d'.Waits p) ∧
      (∀ e, d.config.validate = .error e →
        (∃ cause, e = .invalidConfig cause) ∧ d.Refused e deeds log d') ∧
      (∀ e, d.config.validate = .ok () → d.codec.encode d.bundle = .error e →
        d.Refused (.encode e) deeds log d') ∧
      (∀ payload, d.config.validate = .ok () → d.codec.encode d.bundle = .ok payload →
        ∃ causes states, milestones log = trail d.path states ∧ Forward states ∧
          (causes.length ≤ d.config.retryPolicy.maxAttempts ∧ deeds = failures causes ∧
              d.Outside polls causes states d'.phase ∨
            ∃ stream chunks finale, causes.length < d.config.retryPolicy.maxAttempts ∧
              deeds = connectedDeeds causes stream chunks finale ∧ Along payload chunks ∧
              d.Inside polls payload stream chunks finale states d'.phase)) ∧
      ∀ cause, d'.phase ≠ .settled (.returned (.error (.frame (.io cause)))) := by
  intro polls deeds
  have invalid : ∀ e, d.config.validate = .error e →
      (∃ cause, e = .invalidConfig cause) ∧ d.Refused e deeds log d' := by
    intro e refused
    have refuses : ∀ s, d.start s = ⟨d.finish (.error e), s, []⟩ := by simp [start, refused]
    refine ⟨?_, refused_of_course isNew refuses course⟩
    unfold SenderConfig.validate checkSocket at refused
    split at refused
    next => exact ⟨_, (Except.error.inj refused).symm⟩
    next => cases refused
  have unencoded : ∀ e, d.config.validate = .ok () → d.codec.encode d.bundle = .error e →
      d.Refused (.encode e) deeds log d' := by
    intro e valid refused
    have refuses : ∀ s, d.start s = ⟨d.finish (.error (.encode e)), s, []⟩ := by
      simp [start, valid, refused]
    exact refused_of_course isNew refuses course
  have retrying : d'.Retrying := by
    cases course with
    | start => simp [Retrying, isNew]
    | next before acts => exact acts.turn.retrying
  refine ⟨leads_of_course course, fun p => over_or_waits retrying, invalid, unencoded, ?_, ?_⟩
  · intro payload valid encoded
    obtain ⟨phase, rfl, logs⟩ := phaseLog_of_course isNew valid encoded course
    exact logs.outside_or_inside
  · intro cause failed
    cases valid : d.config.validate with
    | error e =>
      obtain ⟨⟨_, rfl⟩, refused⟩ := invalid e valid
      cases refused.result _ failed
    | ok =>
      cases encoded : d.codec.encode d.bundle with
      | error e => cases (unencoded e valid encoded).result _ failed
      | ok payload =>
        obtain ⟨phase, rfl, logs⟩ := phaseLog_of_course isNew valid encoded course
        generalize milestones log = told, Round.allDeeds rounds = deeds at logs
        cases failed
        cases logs with
        | failOutside _ fails => exact fails.ne_frame _ rfl
        | failInside _ _ fails => exact fails.ne_frame_io _ rfl

/-- A receiver and a sender side by side: the sender connects at once and writes the whole frame. -/
theorem send_connects_once_one_of_each :
    ∃ a d' rounds payload stream chunks,
      (Exchange.clockwork.run 9 (0, Exchange.oneOfEach)).2.actors[1]? = some a ∧
      Course Acts ⟨.withSocket "s", .binary, .ofToken ⟨0, []⟩, [⟨.tdxReport, [1, 2], [3]⟩], .starting⟩
        rounds a.log d' ∧
      (∀ round ∈ rounds, Lead "s" round.poll.sockets round.deeds round.outcome.sockets) ∧
      Evidence.Codec.binary.encode [⟨.tdxReport, [1, 2], [3]⟩] = .ok payload ∧
      Frame.encode payload = .ok chunks.flatten ∧
      Round.allDeeds rounds = connectedDeeds [] stream chunks [.shutdown stream, .close stream] := by
  have run := Exchange.run_of_reaches (Exchange.clockwork.reaches_run 9 (0, Exchange.oneOfEach))
  obtain ⟨a, d', rounds, log, here, role, logged, course⟩ :=
    Exchange.sender_course_of_run run (k := 1) rfl rfl
  have whole : ∃ a, (Exchange.clockwork.run 9 (0, Exchange.oneOfEach)).2.actors[1]? = some a ∧
      a.role = .sender ⟨.withSocket "s", .binary, .ofToken ⟨0, []⟩, [⟨.tdxReport, [1, 2], [3]⟩],
        .settled (.returned (.ok ()))⟩ := ⟨_, rfl, rfl⟩
  obtain ⟨a', here', role'⟩ := whole
  obtain rfl := Option.some.inj (here.symm.trans here')
  obtain rfl := Role.sender.inj (role.symm.trans role')
  rw [show log = a.log from logged.symm] at course
  obtain ⟨leads, -, -, -, protocol, -⟩ := send_connects_once rfl course
  obtain ⟨causes, states, -, -, outside | inside⟩ := protocol _ rfl rfl
  · obtain ⟨-, -, -, e, failed, -⟩ := outside
    cases failed
  · obtain ⟨stream, chunks, finale, left, deeds, -, -, rfl, framed⟩ := inside
    obtain rfl := List.eq_nil_of_length_eq_zero (Nat.lt_one_iff.mp left)
    exact ⟨a, _, rounds, _, stream, chunks, here, course, leads, rfl, framed, deeds⟩

end Sender

end EvidenceExchange
