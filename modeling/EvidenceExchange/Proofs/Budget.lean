import EvidenceExchange.Proofs.Attendance
import EvidenceExchange.Proofs.Waiting

namespace EvidenceExchange

theorem Instant.le_tick_of_add? {now : Nat} {d : Duration} {t : Instant}
    (h : (ofMillis now).add? d = some t) : now ≤ t.tick := by
  unfold add? at h
  split at h
  next =>
    cases h
    simp only [tick, ofMillis]
    omega
  next => cases h

/-- A context that is live stays so until its timer, if it is not cancelled. -/
theorem Context.live_until {c : Context} {ts : Tokens} {now later u : Nat}
    (live : c.ended? ts now = none) (woken : ∀ t ∈ c.timers, now < t → later ≤ t) (lt : u < later) :
    c.ended? ts u = none := by
  rw [← pollDone_eq_ended?] at live ⊢
  unfold pollDone at live ⊢
  cases hd : c.deadline with
  | none => simpa only [hd] using live
  | some d =>
    simp only [hd] at live ⊢
    split at live
    next => cases live
    next uncancelled =>
      split at live
      next => cases live
      next early =>
        have early : now < d.tick := by simpa [timerFired] using early
        have bound := woken d.tick (by simp [timers, hd]) early
        rw [if_neg uncancelled, if_neg]
        simp only [timerFired, decide_eq_true_eq]
        omega

namespace Receiver

variable {r : Receiver} {deadline : Instant}

theorem WaitsUntil.running (h : r.WaitsUntil deadline) : r.isOver = false := by
  obtain ⟨l, phase⟩ | ⟨stream, reader, phase⟩ := h <;> simp only [isOver, phase]

theorem WaitsUntil.timers (h : r.WaitsUntil deadline) : r.timers = deadline.tick :: r.context.timers := by
  obtain ⟨l, phase⟩ | ⟨stream, reader, phase⟩ := h <;> simp only [Receiver.timers, phase]

end Receiver

namespace Exchange

/-- The receiver with the given number waits until its deadline. -/
def Waits (k : Nat) (r : Receiver) (deadline : Instant) (b : Nat × Exchange) : Prop :=
  ∃ phase, b.2.HasReceiver k (r.goTo phase) ∧ (r.goTo phase).WaitsUntil deadline

/-- It waits, and nothing decides its exchange. -/
def IsUndecided (k : Nat) (r : Receiver) (deadline : Instant) (b : Nat × Exchange) : Prop :=
  ∃ phase, b.2.HasReceiver k (r.goTo phase) ∧
    (r.goTo phase).Undecided deadline b.2.tokens b.1 b.2.sockets

/-- What its exchange ends with, when it is polled for the last time. -/
def EndsWith (k : Nat) (r : Receiver) (deadline : Instant) (b : Nat × Exchange)
    (result : Except ExchangeError Evidence.Bundle) : Prop :=
  ∃ phase, b.2.HasReceiver k (r.goTo phase) ∧
    (r.goTo phase).Ends deadline b.2.tokens b.1 b.2.sockets result

/-- What is kept of a receiver that waits. -/
structure Awaits (k : Nat) (r : Receiver) (deadline : Instant) (b : Nat × Exchange)
    (a : Actor) (phase : Receiver.Phase) : Prop where
  here : b.2.actors[k]? = some a
  role : a.role = .receiver (r.goTo phase)
  waits : (r.goTo phase).WaitsUntil deadline
  prepared : (r.goTo phase).Prepared
  unended : a.endedAt = none
  early : b.1 ≤ deadline.tick

/-- What has become of a receiver whose exchange ended after the given state. -/
structure EndedAfter (k : Nat) (r : Receiver) (deadline : Instant) (c b : Nat × Exchange)
    (a : Actor) : Prop where
  here : b.2.actors[k]? = some a
  ended : a.endedAt = some c.1
  result : a.role = .receiver (r.goTo (.settled .aborted)) ∨
    ∃ result, a.role = .receiver (r.goTo (.settled (.returned result))) ∧
      EndsWith k r deadline c result

section step

variable {k : Nat} {r : Receiver} {deadline : Instant} {b c d : Nat × Exchange} {a : Actor}
  {phase : Receiver.Phase}

theorem Awaits.hasReceiver (h : Awaits k r deadline b a phase) :
    b.2.HasReceiver k (r.goTo phase) :=
  ⟨a, h.here, h.role⟩

theorem Awaits.step (h : Awaits k r deadline b a phase) (step : Attended k b c) :
    (∃ a' phase', Awaits k r deadline c a' phase') ∧
        (b.1 < c.1 → IsUndecided k r deadline b ∧ ∀ t ∈ r.context.timers, b.1 < t → c.1 ≤ t) ∨
      c.1 = b.1 ∧ ∃ a', EndedAfter k r deadline b c a' := by
  cases step with
  | @wait now later x r' grain le here pos idle woken =>
    obtain rfl := here.unique h.hasReceiver
    have undecided := Receiver.undecided_of_idle pos h.waits h.prepared idle
    rw [h.waits.timers] at woken
    have early := woken _ (List.mem_cons_self ..) undecided.early
    exact .inl ⟨⟨a, phase, h.here, h.role, h.waits, h.prepared, h.unended, early⟩,
      fun _ => ⟨⟨phase, h.hasReceiver, undecided⟩,
        fun t mem => woken t (List.mem_cons_of_mem _ mem)⟩⟩
  | cancel | carryOut => exact .inl ⟨⟨a, phase, h.here, h.role, h.waits, h.prepared, h.unended, h.early⟩,
      fun lt => absurd lt (lt_irrefl _)⟩
  | other ne =>
    refine .inl ⟨⟨a, phase, ?_, h.role, h.waits, h.prepared, h.unended, h.early⟩,
      fun lt => absurd lt (lt_irrefl _)⟩
    exact (settle_actors_other ne.symm).trans h.here
  | @poll now x a' r' grain o here role _ pos polled =>
    obtain rfl := Option.some.inj (here.symm.trans h.here)
    obtain rfl := Role.receiver.inj (role.symm.trans h.role)
    obtain ⟨phase', same, -⟩ := (Receiver.turn_of_does (.move grain polled)).ahead
    have self : (x.settle k now a' _).actors[k]? = some (a'.after now _) :=
      settle_actors_self (m := Role.ofReceiver o) here
    obtain ⟨result, settled, ends⟩ | goes := Receiver.ends_or_goes pos h.waits h.prepared h.early polled
    · rw [same] at settled
      obtain rfl : phase' = _ := settled
      refine .inr ⟨rfl, _, self, ?_, .inr ⟨result, ?_, phase, h.hasReceiver, ends⟩⟩
      · simp [Actor.after, Role.isOver, Receiver.isOver, same, Receiver.goTo, h.unended]
      · simp only [Actor.after, Role.ofReceiver_role, same]
        rfl
    · have running := goes.waits.running
      refine .inl ⟨⟨_, phase', self, ?_, ?_, ?_, ?_, h.early⟩, fun lt => absurd lt (lt_irrefl _)⟩
      · simp only [Actor.after, Role.ofReceiver_role, same]
        rfl
      · exact same ▸ goes.waits
      · exact same ▸ goes.prepared
      · simp [Actor.after, Role.isOver, running]
  | @drop now x a' here _ live =>
    obtain rfl := Option.some.inj (here.symm.trans h.here)
    have self : (x.settle k now a' _).actors[k]? = some (a'.after now _) :=
      settle_actors_self (m := a'.role.abort x.sockets) here
    have aborted : ((r.goTo phase).abort x.sockets).value = r.goTo (.settled .aborted) := by
      obtain ⟨l, hp⟩ | ⟨stream, reader, hp⟩ := h.waits <;>
        simp only [Receiver.abort, hp] <;> rfl
    refine .inr ⟨rfl, _, self, ?_, .inl ?_⟩
    · simp only [Actor.after, h.role, Role.abort, Role.ofReceiver_role, aborted, h.unended]
      rfl
    · simp only [Actor.after, h.role, Role.abort, Role.ofReceiver_role, aborted]

theorem EndedAfter.isOver (h : EndedAfter k r deadline c b a) : a.role.isOver = true := by
  obtain role | ⟨result, role, -⟩ := h.result <;> rw [role] <;> rfl

theorem Awaits.running (h : Awaits k r deadline b a phase) : a.role.isOver = false := by
  rw [h.role]
  exact h.waits.running

theorem EndedAfter.step (h : EndedAfter k r deadline c b a) (step : Attended k b d) :
    EndedAfter k r deadline c d a :=
  ⟨step.over h.here h.isOver, h.ended, h.result⟩

theorem EndedAfter.run (h : EndedAfter k r deadline c b a) (run : AttendedRun k b d) :
    EndedAfter k r deadline c d a := by
  induction run with
  | refl => exact h
  | tail _ step ih => exact ih.step step

theorem EndedAfter.not_awaits (h : EndedAfter k r deadline c b a) {a' : Actor} :
    ¬Awaits k r deadline b a' phase := by
  intro awaits
  obtain rfl := Option.some.inj (h.here.symm.trans awaits.here)
  have running := awaits.running
  rw [h.isOver] at running
  cases running

theorem awaits_or_ended {start : Nat × Exchange} (initially : Awaits k r deadline start a phase)
    (run : AttendedRun k start b) :
    ∃ c a' phase', AttendedRun k start c ∧ AttendedRun k c b ∧ Awaits k r deadline c a' phase' ∧
      (c = b ∨ ∃ a', EndedAfter k r deadline c b a') := by
  induction run with
  | refl => exact ⟨start, a, phase, .refl, .refl, initially, .inl rfl⟩
  | @tail b d run step ih =>
    obtain ⟨c, a', phase', before, after, awaits, rfl | ⟨a'', ended⟩⟩ := ih
    · obtain ⟨⟨a', phase', awaits'⟩, -⟩ | ⟨-, a'', ended⟩ := awaits.step step
      · exact ⟨d, a', phase', .tail before step, .refl, awaits', .inl rfl⟩
      · exact ⟨c, a', phase', before, .tail after step, awaits, .inr ⟨a'', ended⟩⟩
    · exact ⟨c, a', phase', before, .tail after step, awaits, .inr ⟨a'', ended.step step⟩⟩

/-- A receiver that waits has waited ever since. -/
theorem Awaits.before {start : Nat × Exchange} {a₀ : Actor} {phase₀ : Receiver.Phase}
    (initially : Awaits k r deadline start a₀ phase₀) (run : AttendedRun k start b)
    (rest : AttendedRun k b c) (h : Awaits k r deadline c a phase) :
    ∃ a' phase', Awaits k r deadline b a' phase' := by
  obtain ⟨d, a', phase', -, -, awaits, rfl | ⟨a'', ended⟩⟩ := awaits_or_ended initially run
  · exact ⟨a', phase', awaits⟩
  · exact absurd h (ended.run rest).not_awaits

/-- A receiver that still waits has a context that has not ended at any instant before. -/
theorem Awaits.live {start : Nat × Exchange} {a₀ : Actor} {phase₀ : Receiver.Phase}
    (h : Awaits k r deadline c a phase) (initially : Awaits k r deadline start a₀ phase₀)
    (run : AttendedRun k start b) (rest : AttendedRun k b c) :
    ∀ u, b.1 ≤ u → u < c.1 → r.context.ended? b.2.tokens u = none := by
  induction rest using Relation.ReflTransGen.head_induction_on with
  | refl => exact fun u le lt => absurd (le.trans_lt lt) (lt_irrefl _)
  | @head b b' step rest ih =>
    intro u le lt
    obtain ⟨mover, moved⟩ := step.step
    by_cases next : b'.1 ≤ u
    · exact Context.live_of_later le_rfl moved.later.2 (ih (.tail run step) u next lt)
    · obtain ⟨a', phase', awaits⟩ := Awaits.before initially run (.head step rest) h
      have passes : b.1 < b'.1 := by omega
      obtain ⟨-, looked⟩ | ⟨same, -⟩ := awaits.step step
      · obtain ⟨⟨phase'', -, undecided⟩, woken⟩ := looked passes
        exact Context.live_until undecided.live woken (not_le.mp next)
      · exact absurd same passes.ne'

end step

/-- Once bound, a receiver has a deadline so long after its bind as its configuration says. -/
theorem deadline_of_bind {r : Receiver} {l : SocketLock} {li : SocketListener} {now : Nat}
    {s : Sockets} {deadline : Instant}
    (h : (r.bind l now s).value.phase = .accepting li deadline) :
    (Instant.ofMillis now).add? r.config.timeout = some deadline := by
  obtain ⟨e, -, binds⟩ | ⟨li', deadline', -, represented, binds⟩ | ⟨li', -, -, binds⟩ :=
    r.bind_cases l now s <;> rw [binds] at h <;> cases h
  exact represented

theorem awaits_of_bound {mover : Option Nat} {k : Nat} {a start : Nat × Exchange} {r r' : Receiver}
    {l : SocketLock} {li : SocketListener} {deadline : Instant} (step : Step mover a start)
    (before : a.2.HasReceiver k r) (binding : r.phase = .binding l)
    (after : start.2.HasReceiver k r') (accepting : r'.phase = .accepting li deadline) :
    (Instant.ofMillis a.1).add? r.config.timeout = some deadline ∧
      ∃ c, Awaits k r deadline start c (.accepting li deadline) := by
  obtain ⟨c, here, role⟩ := before
  obtain ⟨d, here', role'⟩ := after
  obtain ⟨-, kept⟩ | ⟨rfl, m, does, moved⟩ := step.actor here
  · obtain rfl := Option.some.inj (here'.symm.trans kept)
    obtain rfl := Role.receiver.inj (role.symm.trans role')
    simp [binding] at accepting
  · obtain rfl := Option.some.inj (here'.symm.trans moved)
    rw [role] at does
    obtain ⟨o, did, rfl⟩ := Role.does_receiver does
    obtain rfl : o.value = r' := Role.receiver.inj role'
    obtain ⟨phase, same, -⟩ := (Receiver.turn_of_does did).ahead
    have here_phase : phase = .accepting li deadline := by
      rw [same] at accepting
      exact accepting
    subst here_phase
    have represented : (Instant.ofMillis a.1).add? r.config.timeout = some deadline := by
      cases did with
      | drop live => simp [Receiver.abort, binding, Receiver.goTo] at accepting
      | move grain polled =>
        simp only [Receiver.move, binding] at polled
        cases polled
        exact deadline_of_bind accepting
    refine ⟨represented, _, moved, ?_, ?_, ?_, ?_, ?_⟩
    · simp only [Actor.after, Role.ofReceiver_role, same]
    · exact .inl ⟨li, rfl⟩
    · rintro _ _ _ ⟨⟩
    · simp [Actor.after, Role.isOver, Receiver.isOver, accepting]
    · rw [step.same_instant]
      exact Instant.le_tick_of_add? represented

/-- A receive has from its bind until its deadline, and no longer than its context lasts: time goes on
only while nothing decides its exchange, each poll leaves it waiting for the same or ends it, and when
it has ended, that was in the last state in which it waited. -/
theorem receive_within_budget {mover : Option Nat} {k : Nat} {a start : Nat × Exchange}
    {r r' : Receiver} {l : SocketLock} {li : SocketListener} {deadline : Instant}
    (bound : Step mover a start) (before : a.2.HasReceiver k r) (binding : r.phase = .binding l)
    (after : start.2.HasReceiver k r') (accepting : r'.phase = .accepting li deadline) :
    (Instant.ofMillis a.1).add? r.config.timeout = some deadline ∧
    (∀ b c, AttendedRun k start b → Waits k r deadline b → Attended k b c → b.1 < c.1 →
      IsUndecided k r deadline b ∧ Waits k r deadline c) ∧
    (∀ b phase grain o, AttendedRun k start b → b.2.HasReceiver k (r.goTo phase) →
      (r.goTo phase).WaitsUntil deadline → 0 < grain →
      (r.goTo phase).move grain b.2.tokens b.1 b.2.sockets = some o →
      (∃ result, o.value.phase = .settled (.returned result) ∧ EndsWith k r deadline b result) ∨
        o.value.WaitsUntil deadline ∧ o.value.input? o.sockets = (r.goTo phase).input? b.2.sockets) ∧
    ∀ b, AttendedRun k start b →
      ∃ c, AttendedRun k start c ∧ AttendedRun k c b ∧ Waits k r deadline c ∧ c.1 ≤ deadline.tick ∧
        (∀ d, AttendedRun k start d → AttendedRun k d c →
          ∀ u, d.1 ≤ u → u < c.1 → r.context.ended? d.2.tokens u = none) ∧
        (c = b ∨ ∃ a', EndedAfter k r deadline c b a') := by
  obtain ⟨represented, c₀, initially⟩ := awaits_of_bound bound before binding after accepting
  have awaits : ∀ {b}, AttendedRun k start b → Waits k r deadline b →
      ∃ a phase, Awaits k r deadline b a phase := by
    intro b run ⟨phase, ⟨a, here, role⟩, waits⟩
    obtain ⟨c, a', phase', -, -, h, rfl | ⟨a'', ended⟩⟩ := awaits_or_ended initially run
    · exact ⟨a', phase', h⟩
    · obtain rfl := Option.some.inj (here.symm.trans ended.here)
      have running := ended.isOver
      rw [role, Role.isOver, waits.running] at running
      cases running
  refine ⟨represented, ?_, ?_, ?_⟩
  · intro b c run waits step passes
    obtain ⟨a, phase, h⟩ := awaits run waits
    obtain ⟨⟨a', phase', h'⟩, undecided⟩ | ⟨same, -⟩ := h.step step
    · exact ⟨(undecided passes).1, phase', h'.hasReceiver, h'.waits⟩
    · exact absurd same passes.ne'
  · intro b phase grain o run here waits pos polled
    obtain ⟨a, phase', h⟩ := awaits run ⟨phase, here, waits⟩
    have same := here.unique h.hasReceiver
    have prepared : (r.goTo phase).Prepared := same ▸ h.prepared
    obtain ⟨result, settled, ends⟩ | goes := Receiver.ends_or_goes pos waits prepared h.early polled
    · exact .inl ⟨result, settled, phase, here, ends⟩
    · exact .inr ⟨goes.waits, goes.input⟩
  · intro b run
    obtain ⟨c, a', phase, run', rest, h, outcome⟩ := awaits_or_ended initially run
    refine ⟨c, run', rest, ⟨phase, h.hasReceiver, h.waits⟩, h.early, ?_, outcome⟩
    exact fun d before between => h.live initially before between

/-- A receiver with three milliseconds, and a peer that sends one byte in each of them. -/
def dripFeed : Exchange where
  root := ⟨0, []⟩
  tokens := ⟨1, []⟩
  cancels := []
  sockets := .empty
  actors :=
    [⟨0, .receiver ⟨⟨"s", .ofMillis 3, false⟩, .binary, ⟨⟨0, []⟩, some (.ofMillis 9)⟩, .starting⟩,
        none, [], none⟩,
      ⟨0, .peer (.new [⟨1, .connect "s"⟩, ⟨1, .write [0]⟩, ⟨2, .write [0]⟩, ⟨3, .write [0]⟩]),
        none, [], none⟩]
  turn := none

/-- The receiver is bound after three moves, and has given up after fifteen, two bytes later. -/
theorem receive_within_budget_drip_feed :
    ∃ r start c b, start.1 = 0 ∧ AttendedRun 0 start c ∧ Waits 0 r (.ofMillis 3) c ∧ c.1 = 3 ∧
      EndsWith 0 r (.ofMillis 3) c (.error (.timeout (.ofMillis 3))) ∧
      AttendedRun 0 c b ∧ ∃ a, EndedAfter 0 r (.ofMillis 3) c b a := by
  obtain ⟨mover, bound⟩ : ∃ mover,
      Step mover (clockwork.run 2 (0, dripFeed)) (clockwork.run 3 (0, dripFeed)) :=
    step_of_clockwork (by rfl)
  have binding : (clockwork.run 2 (0, dripFeed)).2.HasReceiver 0
      ⟨⟨"s", .ofMillis 3, false⟩, .binary, ⟨⟨0, []⟩, some (.ofMillis 9)⟩,
        .binding ⟨"s.lock", 1⟩⟩ := ⟨_, rfl, rfl⟩
  have accepting : (clockwork.run 3 (0, dripFeed)).2.HasReceiver 0
      ⟨⟨"s", .ofMillis 3, false⟩, .binary, ⟨⟨0, []⟩, some (.ofMillis 9)⟩,
        .accepting ⟨"s", 2, ⟨"s.lock", 1⟩⟩ (.ofMillis 3)⟩ := ⟨_, rfl, rfl⟩
  have run : AttendedRun 0 (clockwork.run 3 (0, dripFeed))
      (clockwork.run 12 (clockwork.run 3 (0, dripFeed))) :=
    attendedRun_of_reaches (clockwork.reaches_run 12 _) ⟨_, _, rfl, rfl, Nat.zero_le _⟩
  have settled : ∃ a, (clockwork.run 12 (clockwork.run 3 (0, dripFeed))).2.actors[0]? = some a ∧
      a.endedAt = some 3 ∧ a.role = .receiver
        ⟨⟨"s", .ofMillis 3, false⟩, .binary, ⟨⟨0, []⟩, some (.ofMillis 9)⟩,
          .settled (.returned (.error (.timeout (.ofMillis 3))))⟩ := ⟨_, rfl, by decide, by rfl⟩
  obtain ⟨a, here, instant, role⟩ := settled
  obtain ⟨-, -, -, ended⟩ := receive_within_budget bound binding rfl accepting rfl
  obtain ⟨c, before, after, waits, -, -, same | ⟨a', outcome⟩⟩ := ended _ run
  · rw [same] at waits
    obtain ⟨phase, ⟨a', here', role'⟩, waits⟩ := waits
    obtain rfl := Option.some.inj (here.symm.trans here')
    obtain rfl := congrArg Receiver.phase (Role.receiver.inj (role.symm.trans role'))
    obtain ⟨_, ⟨⟩⟩ | ⟨_, _, ⟨⟩⟩ := waits
  · obtain rfl := Option.some.inj (here.symm.trans outcome.here)
    refine ⟨_, _, c, _, rfl, before, waits, ?_, ?_, after, a, outcome⟩
    · exact Option.some.inj (outcome.ended.symm.trans instant)
    · obtain role' | ⟨result, role', ends⟩ := outcome.result
      · cases role.symm.trans role'
      · cases role.symm.trans role'
        exact ends

/-- A receiver with little more than a millisecond, whose context lasts for two. -/
def shortTimeout : Exchange where
  root := ⟨0, []⟩
  tokens := ⟨1, []⟩
  cancels := []
  sockets := .empty
  actors :=
    [⟨0, .receiver ⟨⟨"s", ⟨1200000, by decide⟩, false⟩, .binary, ⟨⟨0, []⟩, some (.ofMillis 2)⟩,
      .starting⟩, none, [], none⟩]
  turn := none

/-- Timers fire at whole milliseconds: a deadline within the second millisecond, while nobody has
connected, loses against the context that ends with that millisecond. -/
theorem deadline_within_millisecond_loses :
    ∃ start b r l deadline, AttendedRun 0 start b ∧ start.1 = 0 ∧ start.2.Listens 0 r l ∧
      r.phase = .accepting l deadline ∧ r.config.timeout.nanos = 1200000 ∧
      deadline.nanos = 1200000 ∧ r.context.deadline = some ⟨2000000⟩ ∧
      b.2.tokens.cancelled = [] ∧ b.2.sockets.connections = [] ∧
      ∃ a, b.2.actors[0]? = some a ∧ a.endedAt = some 2 ∧
        a.role = .receiver (r.goTo (.settled (.returned (.error .deadlineExceeded)))) := by
  have accepting : (clockwork.run 3 (0, shortTimeout)).2.HasReceiver 0
      ⟨⟨"s", ⟨1200000, by decide⟩, false⟩, .binary, ⟨⟨0, []⟩, some (.ofMillis 2)⟩,
        .accepting ⟨"s", 2, ⟨"s.lock", 1⟩⟩ ⟨1200000⟩⟩ := ⟨_, rfl, rfl⟩
  have run : AttendedRun 0 (clockwork.run 3 (0, shortTimeout))
      (clockwork.run 2 (clockwork.run 3 (0, shortTimeout))) :=
    attendedRun_of_reaches (clockwork.reaches_run 2 _) ⟨_, _, rfl, rfl, Nat.zero_le _⟩
  exact ⟨_, _, _, _, _, run, rfl, ⟨accepting, _, rfl⟩, rfl, rfl, rfl, rfl, by decide, by decide, _,
    rfl, by decide, by rfl⟩

end Exchange

end EvidenceExchange
