import EvidenceExchange.Context.Named
import EvidenceExchange.Proofs.Context.Settling

namespace EvidenceExchange

namespace Context

/-- The cause is a cancel whenever there was one, even after the deadline. -/
theorem cancelled_iff_of_ended? {c : Context} {ts : Tokens} {now : Nat} {cause : Cancellation}
    (ended : c.ended? ts now = some cause) : cause = .cancelled ↔ ts.isCancelled c.token = true := by
  unfold ended? at ended
  split at ended
  next cancelled =>
    cases ended
    simp [cancelled]
  next uncancelled =>
    split at ended
    next =>
      cases ended
      simp [uncancelled]
    next => cases ended

theorem not_live_of_deadline {c : Context} {ts : Tokens} {now : Nat} {d : Instant}
    (limit : c.deadline = some d) (past : d.tick ≤ now) : c.ended? ts now ≠ none := by
  rw [← pollDone_eq_ended?, pollDone, limit]
  dsimp only
  split
  next => exact Option.some_ne_none _
  next => simp [timerFired, past]

end Context

namespace Waiting

variable {α : Type} {x : Nat → Nat × Waiting α} {work : Work α} {a b : Nat × Waiting α} {m n : Nat}

theorem unready_of_idle (idle : a.2.work = none) : ¬Ready a := by
  rintro ⟨work, _, works, _⟩
  cases idle.symm.trans works

theorem ready_iff_of_work (works : a.2.work = some work) :
    Ready a ↔ ∃ ready, work.ready = some ready ∧ ready ≤ a.1 := by
  constructor
  · rintro ⟨work', ready, works', due, le⟩
    cases works.symm.trans works'
    exact ⟨ready, due, le⟩
  · rintro ⟨ready, due, le⟩
    exact ⟨work, ready, works, due, le⟩

theorem unready_iff_of_work (works : a.2.work = some work) :
    ¬Ready a ↔ ∀ ready, work.ready = some ready → a.1 < ready := by
  rw [ready_iff_of_work works]
  push Not
  rfl

/-- A wait for the end of a context settles at the first instant that the clock shows at which the context
tells that it has ended, with the cause that it tells there, and so with a cancel whenever there was one;
it lasts for ever if there is no such instant. Left to its clock, it settles at the first instant at all by
which its cancels and its deadline end the context, if it is not given up before. And for work under a
context the early look at the context and the race tell the same: work under an ended context gets the
cause at once, and it is not polled. The present instant is read at whole milliseconds of the clock that
the timers run on, here and wherever a context is asked whether it has ended. -/
theorem done_settles_as_shown (attended : AttendedForever x) (fresh : (x 0).2.outcome = none)
    (idle : (x 0).2.work = none) :
    ((∃ n cause, shown (x n) = some cause ∧ (∀ m, (x m).1 < (x n).1 → shown (x m) = none) ∧
        (∀ m, (x m).2.outcome = if m ≤ n then none else some (.ended cause)) ∧
        (cause = .cancelled ↔ (x n).2.tokens.isCancelled (x n).2.context.token = true)) ∨
      ∀ n, shown (x n) = none ∧ (x n).2.outcome = none) ∧
    (∃ now w, (x 0).2.run (x 0).1 = (now, w) ∧ (x 0).1 ≤ now ∧
      (∀ u, (x 0).1 ≤ u → u < now →
        (x 0).2.context.LiveAt (TimedCancel.schedule (x 0).2.tokens (x 0).2.cancels) u) ∧
      ((∃ cause, w.outcome = some (.ended cause) ∧ shown (now, w) = some cause) ∨
        w.outcome = some .gaveUp ∧ shown (now, w) = none ∧ (x 0).2.giveUpAt ≤ now)) ∧
    (∀ (now : Nat) (w : Waiting α), w.moveWait now = w.poll now ∧
      ∀ cause, shown (now, w) = some cause → w.moveWait now = some (w.settle (.ended cause))) := by
  have never : ∀ n, ¬Ready (x n) := fun n =>
    unready_of_idle ((attended.later (Nat.zero_le n)).work.trans idle)
  refine ⟨?_, ?_, fun now w => ⟨moveWait_eq_poll now w, fun cause => moveWait_of_ended⟩⟩
  · obtain ⟨n, o, settles⟩ | lasts := attended.settles_or_lasts fresh
    · refine .inl ?_
      cases settles.decides with
      | finished _ _ ready => exact absurd ready (never n)
      | ended ended =>
        exact ⟨n, _, ended, fun m before => (settles.quiet m before).1, settles.outcome,
          Context.cancelled_iff_of_ended? ended⟩
    · exact .inr fun n => ⟨(lasts n).2.1, (lasts n).1⟩
  · obtain ⟨o, outcome, since, decided⟩ := run_settles (x 0).1 fresh
    refine ⟨_, _, rfl, since.time, fun u begun before => (since.quiet u begun before).1, ?_⟩
    obtain decides | ⟨rfl, live, -, due⟩ := decided
    · cases decides with
      | ended ended => exact .inl ⟨_, outcome, ended⟩
      | finished _ works => cases (since.work.trans idle).symm.trans works
    · exact .inr ⟨outcome, live, due⟩

/-- A wait whose context is cancelled at the instant of its deadline, before it is polled then. -/
def cancelledAtDeadline : Nat → Nat × Waiting Unit :=
  let w : Waiting Unit := {
    context := ⟨⟨0, []⟩, some (.ofMillis 5)⟩, work := none, giveUpAt := 9, cancels := [],
    tokens := ⟨1, []⟩, polled := false, outcome := none }
  let cancelled := { w with tokens := w.tokens.cancel ⟨0, []⟩ }
  fun
    | 0 => (0, w)
    | 1 => (5, w)
    | 2 => (5, cancelled)
    | n + 3 => (n + 5, cancelled.settle (.ended .cancelled))

theorem attendedForever_cancelledAtDeadline : AttendedForever cancelledAtDeadline where
  step
    | 0 => .pass (by decide) fun _ => moveWait_of_live (by decide)
    | 1 => .cancel ⟨0, []⟩ []
    | 2 => .poll rfl (moveWait_of_ended (by decide))
    | n + 3 => .pass (Nat.lt_succ_self (n + 5)) fun pending => by cases pending
  onward t := ⟨t + 3, by simp only [cancelledAtDeadline]; omega⟩

theorem done_settles_as_shown_at_deadline :
    AttendedForever cancelledAtDeadline ∧ (cancelledAtDeadline 0).2.outcome = none ∧
      (cancelledAtDeadline 0).2.work = none ∧ shown (cancelledAtDeadline 1) = some .deadlineExceeded ∧
      (cancelledAtDeadline 1).1 = 5 ∧
      ∃ n, (cancelledAtDeadline n).1 = 5 ∧
        ∀ m, (cancelledAtDeadline m).2.outcome = if m ≤ n then none else some (.ended .cancelled) := by
  refine ⟨attendedForever_cancelledAtDeadline, rfl, rfl, by decide, rfl, 2, rfl, ?_⟩
  obtain ⟨⟨n, cause, -, -, outcome, -⟩ | lasts, -⟩ :=
    done_settles_as_shown attendedForever_cancelledAtDeadline rfl rfl
  · have before : 2 ≤ n := by
      by_contra settled
      cases (outcome 2).trans (if_neg settled)
    have after : ¬3 ≤ n := fun pending => by cases (outcome 3).trans (if_pos pending)
    obtain rfl : n = 2 := by omega
    cases (outcome 3).trans (if_neg after)
    exact outcome
  · cases (lasts 3).2

/-- Work gets no further once its context has ended. -/
theorem AttendedForever.halts (attended : AttendedForever x) (ended : (shown (x m)).isSome) (le : m ≤ n) :
    (x n).2.polled = (x m).2.polled ∧
      ∀ v, (x n).2.outcome = some (.finished v) → (x m).2.outcome = some (.finished v) := by
  induction n, le using Nat.le_induction with
  | base => exact ⟨rfl, fun _ => id⟩
  | succ n le ih =>
    cases still : shown (x n) with
    | none =>
      rw [(attended.later le).live still] at ended
      cases ended
    | some cause =>
      refine ⟨((attended.step n).polled_eq still).trans ih.1, fun v finished => ih.2 v ?_⟩
      cases pending : (x n).2.outcome with
      | some o => exact ((attended.step n).later.settled o pending).symm.trans finished
      | none =>
        cases (attended.step n).decides pending finished with
        | finished live => cases live.symm.trans still

/-- Work that is ready in time gives its value, if the context lasts until the clock goes on. -/
theorem AttendedForever.finishes (attended : AttendedForever x) (fresh : (x 0).2.outcome = none)
    (works : (x 0).2.work = some work) {l : Nat} (ready : Ready (x l)) (before : (x l).1 < (x m).1) (live : shown (x m) = none) :
    (x m).2.outcome = some (.finished work.value) := by
  cases outcome : (x m).2.outcome with
  | none => exact absurd ready (attended.quiet outcome before).2
  | some o =>
    obtain ⟨n, sooner, decides⟩ := attended.exists_decides fresh outcome
    cases decides with
    | ended ended => cases ((attended.later sooner.le).live live).symm.trans ended
    | finished _ works' =>
      cases (attended.works works n).symm.trans works'
      rfl

/-- Work that is not ready before the deadline of its context is too late. -/
theorem AttendedForever.never_finishes (attended : AttendedForever x) (fresh : (x 0).2.outcome = none)
    (works : (x 0).2.work = some work) {ready : Nat} {d : Instant} (due : work.ready = some ready)
    (limit : (x 0).2.context.deadline = some d) (late : d.tick ≤ ready) (v : α) :
    (x n).2.outcome ≠ some (.finished v) := by
  intro outcome
  obtain ⟨k, -, decides⟩ := attended.exists_decides fresh outcome
  cases decides with
  | finished live _ isReady =>
    obtain ⟨ready', due', le⟩ := (ready_iff_of_work (attended.works works k)).mp isReady
    cases due.symm.trans due'
    rw [← (attended.later (Nat.zero_le k)).context] at limit
    exact Context.not_live_of_deadline limit (late.trans le) live

theorem AttendedForever.race (attended : AttendedForever x) (fresh : (x 0).2.outcome = none)
    (works : (x 0).2.work = some work) :
    (∃ n ready, work.ready = some ready ∧ ready ≤ (x n).1 ∧ shown (x n) = none ∧
        (∀ m, (x m).1 < (x n).1 → (x m).1 < ready ∧ shown (x m) = none) ∧
        ∀ m, (x m).2.outcome = if m ≤ n then none else some (.finished work.value)) ∨
      (∃ n cause, shown (x n) = some cause ∧
        (∀ m, (x m).1 < (x n).1 →
          (∀ ready, work.ready = some ready → (x m).1 < ready) ∧ shown (x m) = none) ∧
        ∀ m, (x m).2.outcome = if m ≤ n then none else some (.ended cause)) ∨
      ∀ n, (∀ ready, work.ready = some ready → (x n).1 < ready) ∧ shown (x n) = none ∧
        (x n).2.outcome = none := by
  obtain ⟨n, o, settles⟩ | lasts := attended.settles_or_lasts fresh
  · have quiet : ∀ m, (x m).1 < (x n).1 →
        (∀ ready, work.ready = some ready → (x m).1 < ready) ∧ shown (x m) = none := fun m before =>
      ⟨(unready_iff_of_work (attended.works works m)).mp (settles.quiet m before).2,
        (settles.quiet m before).1⟩
    cases settles.decides with
    | ended ended => exact .inr (.inl ⟨n, _, ended, quiet, settles.outcome⟩)
    | finished live works' isReady =>
      cases (attended.works works n).symm.trans works'
      obtain ⟨ready, due, le⟩ := (ready_iff_of_work (attended.works works n)).mp isReady
      refine .inl ⟨n, ready, due, le, live, fun m before => ?_, settles.outcome⟩
      exact ⟨(quiet m before).1 ready due, (quiet m before).2⟩
  · refine .inr (.inr fun n => ?_)
    obtain ⟨pending, live, unready⟩ := lasts n
    exact ⟨(unready_iff_of_work (attended.works works n)).mp unready, live, pending⟩

theorem run_race {w : Waiting α} (start : Nat) (fresh : w.outcome = none) (works : w.work = some work) :
    ∃ now w', w.run start = (now, w') ∧ start ≤ now ∧
      (∀ u, start ≤ u → u < now →
        w.context.LiveAt (TimedCancel.schedule w.tokens w.cancels) u ∧
          ∀ ready, work.ready = some ready → u < ready) ∧
      ((∃ ready, work.ready = some ready ∧ ready ≤ now ∧ shown (now, w') = none ∧
          w'.outcome = some (.finished work.value)) ∨
        (∃ cause, shown (now, w') = some cause ∧ w'.outcome = some (.ended cause)) ∨
        (∀ ready, work.ready = some ready → now < ready) ∧ shown (now, w') = none ∧
          w.giveUpAt ≤ now ∧ w'.outcome = some .gaveUp) := by
  obtain ⟨o, outcome, since, decided⟩ := run_settles start fresh
  refine ⟨_, _, rfl, since.time, fun u begun before => ?_, ?_⟩
  · obtain ⟨live, unready, -⟩ := since.quiet u begun before
    exact ⟨live, (unready_iff_of_work (a := (u, w)) works).mp unready⟩
  · have works' := since.work.trans works
    obtain decides | ⟨rfl, live, unready, due⟩ := decided
    · cases decides with
      | ended ended => exact .inr (.inl ⟨_, ended, outcome⟩)
      | finished live works'' isReady =>
        cases works'.symm.trans works''
        obtain ⟨ready, due, le⟩ := (ready_iff_of_work works').mp isReady
        exact .inl ⟨ready, due, le, live, outcome⟩
    · exact .inr (.inr ⟨(unready_iff_of_work works').mp unready, live, due, outcome⟩)

/-- Work under a context is waited for up to the first instant that the clock shows at which it is ready or
its context has ended. It gives its value then if the context has not ended at the poll that is made then,
and so whenever the context lasts longer, and otherwise the cause that the context tells. At the very
instant of a deadline the work is too late. Once the context has ended nobody polls the work any more. Left
to its clock, a wait keeps to the first instant at all, if it is not given up before. And to sleep is to
wait for the first instant of the clock at or after so long a time, or after thirty years. The present
instant is read at whole milliseconds of the clock that the timers run on. -/
theorem race_settles (attended : AttendedForever x) (fresh : (x 0).2.outcome = none)
    (works : (x 0).2.work = some work) :
    ((∃ n ready, work.ready = some ready ∧ ready ≤ (x n).1 ∧ shown (x n) = none ∧
        (∀ m, (x m).1 < (x n).1 → (x m).1 < ready ∧ shown (x m) = none) ∧
        ∀ m, (x m).2.outcome = if m ≤ n then none else some (.finished work.value)) ∨
      (∃ n cause, shown (x n) = some cause ∧
        (∀ m, (x m).1 < (x n).1 →
          (∀ ready, work.ready = some ready → (x m).1 < ready) ∧ shown (x m) = none) ∧
        ∀ m, (x m).2.outcome = if m ≤ n then none else some (.ended cause)) ∨
      ∀ n, (∀ ready, work.ready = some ready → (x n).1 < ready) ∧ shown (x n) = none ∧
        (x n).2.outcome = none) ∧
    (∀ l m ready, work.ready = some ready → ready ≤ (x l).1 → (x l).1 < (x m).1 →
      shown (x m) = none → (x m).2.outcome = some (.finished work.value)) ∧
    (∀ ready d, work.ready = some ready → (x 0).2.context.deadline = some d → d.tick ≤ ready →
      ∀ n v, (x n).2.outcome ≠ some (.finished v)) ∧
    (∀ m n, m ≤ n → (shown (x m)).isSome →
      (x n).2.polled = (x m).2.polled ∧
        ∀ v, (x n).2.outcome = some (.finished v) → (x m).2.outcome = some (.finished v)) ∧
    (∀ (now : Nat) (w : Waiting α) cause, shown (now, w) = some cause →
      w.moveWait now = some (w.settle (.ended cause))) ∧
    (∃ now w, (x 0).2.run (x 0).1 = (now, w) ∧ (x 0).1 ≤ now ∧
      (∀ u, (x 0).1 ≤ u → u < now →
        (x 0).2.context.LiveAt (TimedCancel.schedule (x 0).2.tokens (x 0).2.cancels) u ∧
          ∀ ready, work.ready = some ready → u < ready) ∧
      ((∃ ready, work.ready = some ready ∧ ready ≤ now ∧ shown (now, w) = none ∧
          w.outcome = some (.finished work.value)) ∨
        (∃ cause, shown (now, w) = some cause ∧ w.outcome = some (.ended cause)) ∨
        (∀ ready, work.ready = some ready → now < ready) ∧ shown (now, w) = none ∧
          (x 0).2.giveUpAt ≤ now ∧ w.outcome = some .gaveUp)) ∧
    ∀ (now : Nat) (d : Duration), ∃ ready, (NamedContexts.Wait.sleep d).work now = some ⟨some ready, ()⟩ ∧
      ∀ t, ready ≤ t ↔ now * 1000000 + min d.nanos (946080000 * 1000000000) ≤ t * 1000000 := by
  refine ⟨attended.race fresh works, fun l m ready due le before live => ?_,
    fun ready d due limit late n v => attended.never_finishes fresh works due limit late v,
    fun m n le ended => attended.halts ended le, fun _ _ _ => moveWait_of_ended,
    run_race (x 0).1 fresh works, fun now d => ⟨_, rfl, fun _ => Instant.tick_le_iff⟩⟩
  exact attended.finishes fresh works ((ready_iff_of_work (attended.works works l)).mpr ⟨ready, due, le⟩) before live

/-- Work that is ready at the instant of the deadline of its context. -/
def readyAtDeadline : Nat → Nat × Waiting Unit :=
  let w : Waiting Unit := {
    context := ⟨⟨0, []⟩, some (.ofMillis 5)⟩, work := some ⟨some 5, ()⟩, giveUpAt := 9, cancels := [],
    tokens := ⟨1, []⟩, polled := false, outcome := none }
  let begun := { w with polled := true }
  fun
    | 0 => (0, w)
    | 1 => (0, begun)
    | 2 => (5, begun)
    | n + 3 => (n + 5, begun.settle (.ended .deadlineExceeded))

theorem attendedForever_readyAtDeadline : AttendedForever readyAtDeadline where
  step
    | 0 => .poll rfl (moveWait_of_live (by decide))
    | 1 => .pass (by decide) fun _ => moveWait_of_live (by decide)
    | 2 => .poll rfl (moveWait_of_ended (by decide))
    | n + 3 => .pass (Nat.lt_succ_self (n + 5)) fun pending => by cases pending
  onward t := ⟨t + 3, by simp only [readyAtDeadline]; omega⟩

theorem race_settles_at_deadline :
    AttendedForever readyAtDeadline ∧ (readyAtDeadline 0).2.outcome = none ∧
      (readyAtDeadline 0).2.work = some ⟨some 5, ()⟩ ∧
      (readyAtDeadline 0).2.context.deadline = some (.ofMillis 5) ∧
      ∀ n v, (readyAtDeadline n).2.outcome ≠ some (.finished v) := by
  obtain ⟨-, -, late, -⟩ := race_settles attendedForever_readyAtDeadline rfl rfl
  exact ⟨attendedForever_readyAtDeadline, rfl, rfl, rfl, late 5 (.ofMillis 5) rfl rfl (by decide)⟩

/-- A sleep of more than thirty years is over before its time, under a context that has not ended. -/
theorem sleep_cut_short :
    ∃ after polled, NamedContexts.wait ⟨0, ⟨1, []⟩, []⟩ (.ofToken ⟨0, []⟩) (.sleep (.ofSecs 946080001))
        946080002000 [] = (after, some (.finished ()), polled) ∧
      after.now * 1000000 < (Duration.ofSecs 946080001).nanos := by
  exact ⟨_, _, rfl, by decide⟩

end Waiting

end EvidenceExchange
