import EvidenceExchange.Proofs.Budget
import EvidenceExchange.Proofs.Polling
import EvidenceExchange.Proofs.Refusal

namespace EvidenceExchange

namespace Receiver

variable {r : Receiver} {ts : Tokens} {now grain : Nat} {s : Sockets} {o : Outcome Receiver}

theorem prepared_of_early (early : r.phase.rank < 6) : r.Prepared := by
  intro stream deadline reader phase
  simp [phase, Phase.rank] at early

theorem poll_early (early : r.phase.rank < 6) (pos : 0 < grain)
    (polled : r.move grain ts now s = some o) :
    ∃ phase, o.value = r.goTo phase ∧
      (phase.rank < 6 ∨
        (∃ li deadline, phase = .accepting li deadline ∧
          (Instant.ofMillis now).add? r.config.timeout = some deadline) ∨
        ∃ result, phase = .settled result ∧
          (result = .overflowed → (Instant.ofMillis now).add? r.config.timeout = none)) := by
  have sound := move_pollSpec (prepared_of_early early) pos polled
  have settles : ∀ {result}, o.value = r.goTo (.settled result) → result = .overflowed →
      (Instant.ofMillis now).add? r.config.timeout = none := by
    intro result same overflowed
    have settled : o.value.phase = .settled .overflowed := by rw [same, overflowed]; rfl
    obtain ⟨_, _, -, -, missed⟩ := sound.overflows.mp settled
    exact missed
  cases turn_of_does (.move grain polled) with
  | quit | quitLocking | lockFails | release | quitRemoving | bindFails | overflow =>
    exact ⟨_, rfl, .inr (.inr ⟨_, rfl, settles rfl⟩)⟩
  | start | remove | reclaimed => exact ⟨_, rfl, .inl (by simp [Phase.rank])⟩
  | lock _ _ ahead =>
    refine ⟨_, rfl, .inl ?_⟩
    obtain rfl | rfl := ahead <;> simp [Phase.rank]
  | look _ seen =>
    refine ⟨_, rfl, .inl ?_⟩
    obtain ⟨rfl, -⟩ | rfl := seen <;> simp [Phase.rank]
  | @bind l li deadline phase =>
    simp only [Receiver.move, phase, Option.some.injEq] at polled
    have accepting : (r.bind l now s).value.phase = .accepting li deadline := by rw [polled]; rfl
    exact ⟨_, rfl, .inr (.inl ⟨li, deadline, rfl, Exchange.deadline_of_bind accepting⟩)⟩
  | giveUp phase | accept phase | hangUp phase | read phase | readFails phase | receive phase =>
    simp [phase, Phase.rank] at early

end Receiver

namespace Exchange

/-- How a receive stands that was called at some instant. -/
inductive Follows (k : Nat) (r : Receiver) (start : Nat) (b : Nat × Exchange) : Prop
  | early {a phase} (here : b.2.actors[k]? = some a) (role : a.role = .receiver (r.goTo phase))
      (early : phase.rank < 6) (same : b.1 = start)
  | waiting {a phase deadline}
      (represented : (Instant.ofMillis start).add? r.config.timeout = some deadline)
      (awaits : Awaits k r deadline b a phase)
  | ended {a result} (here : b.2.actors[k]? = some a)
      (role : a.role = .receiver (r.goTo (.settled result)))
      (sound : result = .overflowed → (Instant.ofMillis start).add? r.config.timeout = none)

variable {k start : Nat} {r : Receiver} {b c : Nat × Exchange}

theorem Follows.step (follows : Follows k r start b) (step : Attended k b c) : Follows k r start c := by
  cases follows with
  | @early a phase here role early same =>
    cases step with
    | @wait now later x r' grain _ here' _ idle =>
      obtain rfl := here'.unique ⟨a, here, role⟩
      obtain ⟨o, moves, -⟩ := Receiver.exists_move (r := r.goTo phase) early grain x.tokens now x.sockets
      cases idle.symm.trans moves
    | cancel | carryOut => exact .early here role early same
    | other ne => exact .early ((settle_actors_other ne.symm).trans here) role early same
    | @poll now x a' r' grain o here' role' _ pos polled =>
      obtain rfl := Option.some.inj (here.symm.trans here')
      obtain rfl := Role.receiver.inj (role.symm.trans role')
      obtain rfl : now = start := same
      have self : (x.settle k now a _).actors[k]? = some (a.after now _) :=
        settle_actors_self (m := Role.ofReceiver o) here
      obtain ⟨next, goes, later | ⟨li, deadline, rfl, represented⟩ | ⟨result, rfl, sound⟩⟩ :=
        Receiver.poll_early (r := r.goTo phase) early pos polled
      · exact .early self (congrArg Role.receiver goes) later rfl
      · refine .waiting represented ⟨self, congrArg Role.receiver goes, .inl ⟨li, rfl⟩, ?_, ?_, ?_⟩
        · rintro _ _ _ ⟨⟩
        · simp only [Actor.after, Role.ofReceiver_role, Role.isOver, goes]
          rfl
        · exact Instant.le_tick_of_add? represented
      · exact .ended self (congrArg Role.receiver goes) sound
    | @drop now x a' here' _ live =>
      obtain rfl := Option.some.inj (here.symm.trans here')
      have self : (x.settle k now a _).actors[k]? = some (a.after now _) :=
        settle_actors_self (m := a.role.abort x.sockets) here
      have aborted : ((r.goTo phase).abort x.sockets).value = r.goTo (.settled .aborted) := by
        cases phase with
        | starting | locking | reclaiming | removing | removed | binding => rfl
        | accepting | reading | settled => simp [Receiver.Phase.rank] at early
      refine .ended self ?_ (by simp : CallResult.aborted = .overflowed → _)
      simp only [Actor.after, role, Role.abort, Role.ofReceiver_role, aborted]
  | waiting represented awaits =>
    rcases awaits.step step with ⟨⟨a', phase', awaits'⟩, -⟩ | ⟨-, a', outcome⟩
    · exact .waiting represented awaits'
    · rcases outcome.result with role | ⟨result, role, -⟩
      · exact .ended outcome.here role (by simp)
      · exact .ended outcome.here role (by simp)
  | ended here role sound =>
    have settled := step.over here (by rw [role]; rfl)
    exact .ended settled role sound

theorem follows_of_run {start : Nat × Exchange} {a₀ : Actor} (here : start.2.actors[k]? = some a₀)
    (role : a₀.role = .receiver r) (fresh : r.phase = .starting) (run : AttendedRun k start b) :
    Follows k r start.1 b := by
  induction run with
  | refl =>
    have early : r.phase.rank < 6 := by simp [fresh, Receiver.Phase.rank]
    exact .early here (show a₀.role = .receiver (r.goTo r.phase) from role) early rfl
  | tail _ step ih => exact ih.step step

/-- A receive that is attended to, of any configuration, in any world, with any peers and any context.
Every poll takes it nearer to its end or returns, and it is left to wait only before its deadline; so if
its deadline is representable it has returned when that is over, unless it was dropped. It ends by
itself without returning at one place alone: where its socket has been bound and its deadline turns out
not to be representable. Then it never waits, and its states only go forward in any case. -/
theorem receive_returns_unless_deadline_unrepresentable {start b : Nat × Exchange} {a₀ : Actor}
    (here : start.2.actors[k]? = some a₀) (role : a₀.role = .receiver r) (fresh : r.phase = .starting)
    (run : AttendedRun k start b) :
    ∃ phase, b.2.HasReceiver k (r.goTo phase) ∧
      (phase = .settled .overflowed → (Instant.ofMillis start.1).add? r.config.timeout = none) ∧
      (∀ deadline, (Instant.ofMillis start.1).add? r.config.timeout = some deadline →
        deadline.tick < b.1 → (∃ result, phase = .settled (.returned result)) ∨ phase = .settled .aborted) ∧
      ((Instant.ofMillis start.1).add? r.config.timeout = none → start.1 < b.1 →
        (r.goTo phase).isOver = true) ∧
      ∀ grain, 0 < grain →
        (∀ o, (r.goTo phase).move grain b.2.tokens b.1 b.2.sockets = some o →
          (r.goTo phase).PollSpec b.1 b.2.sockets o) ∧
        ((r.goTo phase).move grain b.2.tokens b.1 b.2.sockets = none →
          (r.goTo phase).isOver = true ∨
            ∃ deadline, (Instant.ofMillis start.1).add? r.config.timeout = some deadline ∧
              b.1 < deadline.tick) := by
  cases follows_of_run here role fresh run with
  | @early a phase here role early same =>
    refine ⟨phase, ⟨a, here, role⟩, ?_, fun deadline represented passed => ?_, fun _ passed => ?_,
      fun grain pos => ⟨fun o polled => ?_, fun idle => ?_⟩⟩
    · rintro rfl
      simp [Receiver.Phase.rank] at early
    · have := Instant.le_tick_of_add? represented
      omega
    · omega
    · exact Receiver.move_pollSpec (Receiver.prepared_of_early early) pos polled
    · obtain ⟨o, moves, -⟩ :=
        Receiver.exists_move (r := r.goTo phase) early grain b.2.tokens b.1 b.2.sockets
      cases idle.symm.trans moves
  | @waiting a phase deadline represented awaits =>
    refine ⟨phase, awaits.hasReceiver, ?_, fun deadline' same passed => ?_, fun missed => ?_,
      fun grain pos => ⟨fun o polled => ?_, fun idle => ?_⟩⟩
    · rintro rfl
      cases awaits.waits.running
    · obtain rfl := Option.some.inj (represented.symm.trans same)
      have := awaits.early
      omega
    · cases represented.symm.trans missed
    · exact Receiver.move_pollSpec awaits.prepared pos polled
    · have undecided := Receiver.undecided_of_idle pos awaits.waits awaits.prepared idle
      exact .inr ⟨deadline, represented, undecided.early⟩
  | @ended a result here role sound =>
    have done : (r.goTo (.settled result)).isOver = true := rfl
    refine ⟨.settled result, ⟨a, here, role⟩, ?_, fun deadline represented _ => ?_, fun _ _ => rfl,
      fun grain pos => ⟨fun o polled => ?_, fun _ => .inl rfl⟩⟩
    · rintro ⟨⟩
      exact sound rfl
    · cases result with
      | returned result => exact .inl ⟨result, rfl⟩
      | aborted => exact .inr rfl
      | overflowed => cases (sound rfl).symm.trans represented
    · rw [Receiver.move_of_isOver done] at polled
      cases polled

/-- A receiver with three milliseconds, and a peer that connects after five. -/
def lateComer : Exchange where
  root := ⟨0, []⟩
  tokens := ⟨1, []⟩
  cancels := []
  sockets := .empty
  actors :=
    [⟨0, .receiver ⟨⟨"s", .ofMillis 3, false⟩, .binary, .ofToken ⟨0, []⟩, .starting⟩, none, [], none⟩,
      ⟨0, .peer (.new [⟨5, .connect "s"⟩]), none, [], none⟩]
  turn := none

theorem receive_returns_unless_deadline_unrepresentable_late_comer :
    ∃ b result, AttendedRun 0 (0, lateComer) b ∧ b.1 = 5 ∧
      b.2.HasReceiver 0 ⟨⟨"s", .ofMillis 3, false⟩, .binary, .ofToken ⟨0, []⟩,
        .settled (.returned result)⟩ := by
  have run : AttendedRun 0 (0, lateComer) (clockwork.run 8 (0, lateComer)) :=
    attendedRun_of_reaches (clockwork.reaches_run 8 _) ⟨_, _, rfl, rfl, Nat.zero_le _⟩
  have kept : (clockwork.run 8 (0, lateComer)).2.HasReceiver 0
      ⟨⟨"s", .ofMillis 3, false⟩, .binary, .ofToken ⟨0, []⟩,
        .settled (.returned (.error (.timeout (.ofMillis 3))))⟩ := ⟨_, rfl, rfl⟩
  have late : (clockwork.run 8 (0, lateComer)).1 = 5 := by decide
  obtain ⟨phase, stands, -, returns, -⟩ :=
    receive_returns_unless_deadline_unrepresentable (r := ⟨⟨"s", .ofMillis 3, false⟩, .binary,
      .ofToken ⟨0, []⟩, .starting⟩) rfl rfl rfl run
  have passed : (Instant.ofMillis 3).tick < (clockwork.run 8 (0, lateComer)).1 := by decide
  rcases returns (.ofMillis 3) rfl passed with ⟨result, rfl⟩ | rfl
  · exact ⟨_, result, run, late, stands⟩
  · cases congrArg Receiver.phase (stands.unique kept)

def boundless : Exchange where
  root := ⟨0, []⟩
  tokens := ⟨1, []⟩
  cancels := []
  sockets := .empty
  actors :=
    [⟨0, .receiver ⟨⟨"s", .ofSecs 18446744073709551615, false⟩, .binary, .ofToken ⟨0, []⟩, .starting⟩,
      none, [], none⟩]
  turn := none

/-- The configuration is valid, and the call ends by itself without a result. -/
theorem valid_timeout_overflows :
    ∃ r, boundless.HasReceiver 0 r ∧ r.phase = .starting ∧ r.config.validate = .ok () ∧
      AttendedRun 0 (0, boundless) (clockwork.run 3 (0, boundless)) ∧
      (clockwork.run 3 (0, boundless)).2.HasReceiver 0 (r.goTo (.settled .overflowed)) := by
  have run : AttendedRun 0 (0, boundless) (clockwork.run 3 (0, boundless)) :=
    attendedRun_of_reaches (clockwork.reaches_run 3 _) ⟨_, _, rfl, rfl, Nat.zero_le _⟩
  exact ⟨_, ⟨_, rfl, rfl⟩, rfl, rfl, run, _, rfl, rfl⟩

end Exchange

end EvidenceExchange
