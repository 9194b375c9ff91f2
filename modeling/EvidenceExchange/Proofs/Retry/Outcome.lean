import EvidenceExchange.Proofs.Retry.Rehearsal

namespace EvidenceExchange.Timetable

variable {α ε : Type} {t : Timetable α ε} {k now : Nat} {c : Context} {ts : Schedule}
  {retry : Retry PlannedWork α ε} {r : RehearsalRecord}

theorem OnTime.attempt_le (decides : t.Decides k) (onTime : t.OnTime k c ts now retry r) {attempt : Nat}
    (here : retry.attempt? = some attempt) : attempt ≤ t.policy.maxAttempts := by
  have within := decides.within
  cases onTime with
  | calling | called | running | pausing =>
    cases here
    omega

section ends

variable {result : Except (RetryError ε) α} {polled : List Nat} {instant : Nat}

theorem Ends.of_live (ends : t.Ends k c ts now result polled) (live : ∀ u ≤ t.endOf k, c.LiveAt ts u) :
    now = t.endOf k ∧ polled = t.starts (k + 1) ∧
      result = (t.gives k).mapError (.exhausted t.policy.maxAttempts) := by
  cases ends with
  | decided => exact ⟨rfl, rfl, rfl⟩
  | ended ended _ _ _ _ _ last => cases (live now last).symm.trans ended

/-- A retry that the context has ended was not polled while the context had, but at its start. -/
theorem first_poll (endsAt : c.EndsAt ts instant) (begun : t.start ≤ now) (ended : ¬c.LiveAt ts now)
    (first : now = t.start ∨ ∀ u < now, c.LiveAt ts u) : now = max instant t.start := by
  have le : instant ≤ now := by
    by_contra early
    exact ended (endsAt.before now (by omega))
  obtain rfl | quiet := first
  · omega
  · have same : ¬instant < now := fun lt => endsAt.ended (quiet instant lt)
    omega

theorem Ends.of_ended (ends : t.Ends k c ts now result polled) (endsAt : c.EndsAt ts instant)
    (le : instant ≤ t.endOf k) :
    now = max instant t.start ∧ polled = (t.starts (k + 1)).filter (· < instant) ∧
      ∃ cause, c.ended? (ts.tokens now) now = some cause ∧ result = .error (.ended cause) := by
  cases ends with
  | decided live => exact absurd (live.earlier le) endsAt.ended
  | @ended m _ cause ended within begun first before after last =>
    have dead : ¬c.LiveAt ts now := fun live => by cases live.symm.trans ended
    have here := first_poll endsAt begun dead first
    refine ⟨here, ?_, cause, ended, rfl⟩
    refine (t.starts_filter within (fun j lt => ?_) fun lt => ?_).symm
    · have := before j lt
      have := t.start_le_startOf j
      omega
    · have := after (by omega)
      omega

/-- Attempts that take no time start one pause after the other. -/
theorem startOf_of_instant (instantly : ∀ j, t.takes j = 0) (j : Nat) :
    t.startOf j = t.start + j * t.policy.pause := by
  simp [startOf, instantly]

/-- How many multiples of a pause lie before some time. -/
theorem ceil_eq {pause after m : Nat} (pos : 0 < pause) (before : ∀ j < m, j * pause < after)
    (le : after ≤ m * pause) : (after + pause - 1) / pause = m := by
  apply Nat.div_eq_of_lt_le
  · cases m with
    | zero => omega
    | succ m =>
      have last := before m (Nat.lt_succ_self m)
      rw [Nat.succ_mul]
      omega
  · rw [Nat.succ_mul]
    omega

theorem Ends.length_of_instant (decides : t.Decides k) (ends : t.Ends k c ts now result polled)
    (instantly : ∀ j, t.takes j = 0) (fails : ∀ j, ∃ e, t.gives j = .error e)
    (pos : 0 < t.policy.pause) {after : Nat} (endsAt : c.EndsAt ts (t.start + after)) :
    polled.length = min t.policy.maxAttempts ((after + t.policy.pause - 1) / t.policy.pause) := by
  have all : k + 1 = t.policy.maxAttempts := decides.final.resolve_left fun ⟨a, success⟩ => by
    obtain ⟨e, failed⟩ := fails k
    cases success.symm.trans failed
  have starts_at := t.startOf_of_instant instantly
  have ends_at : t.endOf k = t.start + k * t.policy.pause := by
    rw [endOf, instantly, starts_at, Nat.add_zero]
  rw [← all]
  cases ends with
  | decided live =>
    have late : k * t.policy.pause < after := by
      by_contra early
      exact endsAt.ended (live.earlier (by omega))
    have more : k + 1 ≤ (after + t.policy.pause - 1) / t.policy.pause := by
      rw [Nat.le_div_iff_mul_le pos, Nat.succ_mul]
      omega
    rw [length_starts, Nat.min_eq_left more]
  | @ended m _ cause ended within begun first before later last =>
    have dead : ¬c.LiveAt ts now := fun live => by cases live.symm.trans ended
    have here := first_poll endsAt begun dead first
    have before : ∀ j < m, j * t.policy.pause < after := by
      intro j lt
      have := before j lt
      rw [starts_at] at this
      omega
    -- The last attempt takes no time, so the context cannot end after its start and before its end.
    have some_left : m ≤ k := by
      by_contra none_left
      have := before k (by omega)
      omega
    have later : after ≤ m * t.policy.pause := by
      have := later some_left
      rw [starts_at] at this
      omega
    rw [length_starts, ceil_eq pos before later]
    omega

end ends

/-- The outcome of a retry that is attended to, whatever its attempts take and give and whenever its
context ends. It is never stuck, takes no more than so many steps, and never counts further than to the
number of its attempts. If its context has not ended by the time at which the deciding attempt is over, it
returns then, with that attempt, after the polls of all attempts up to it. If the context ends by that
time, it returns then, or at its start if the context has ended before, and the attempts that were polled
are those that start before the end of the context. In particular attempts that fail at once are made once
for each pause that has begun by then. -/
theorem outcome_on_the_clock (t : Timetable α ε) (c : Context) (ts : Schedule) :
    (∀ millis, t.policy.interval.nanos = millis * 1000000 →
        t.policy.pause = min millis 946080000000) ∧
      ∃ k, t.Decides k ∧ ∀ steps now retry r, t.Run c ts steps (now, retry, r) →
        steps ≤ t.endOf k - t.start + 4 * k + 7 ∧
        (retry.isOver = false →
          ∃ next, Retry.Attended t.operation t.policy c ts.tokens (now, retry, r) next) ∧
        (∀ attempt, retry.attempt? = some attempt →
          attempt ≤ t.policy.maxAttempts ∧ attempt < UInt32.size) ∧
        ∀ result, retry = .settled result →
          ((∀ u ≤ t.endOf k, c.LiveAt ts u) → now = t.endOf k ∧ r.polledAt = t.starts (k + 1) ∧
            result = (t.gives k).mapError (.exhausted t.policy.maxAttempts)) ∧
          (∀ e ≤ t.endOf k, c.EndsAt ts e →
            now = max e t.start ∧ r.polledAt = (t.starts (k + 1)).filter (· < e) ∧
              ∃ cause, c.ended? (ts.tokens now) now = some cause ∧ result = .error (.ended cause)) ∧
          ((∀ j, t.takes j = 0) → (∀ j, ∃ error, t.gives j = .error error) → 0 < t.policy.pause →
            ∀ e, c.EndsAt ts (t.start + e) →
              r.polledAt.length = min t.policy.maxAttempts ((e + t.policy.pause - 1) / t.policy.pause)) := by
  refine ⟨fun millis whole => Duration.ticks_of_millis whole, ?_⟩
  obtain ⟨k, decides⟩ := t.exists_decides
  refine ⟨k, decides, fun steps now retry r run => ?_⟩
  obtain ⟨kept, bound⟩ := onTimeOrEnded_of_run decides run
  refine ⟨by omega, fun live => Retry.exists_attended _ _ _ _ live _ _, ?_, ?_⟩
  · intro attempt here
    have live : retry.isOver = false := by
      cases retry with
      | calling | trying | pausing => rfl
      | settled => cases here
    have le := (kept.onTime live).attempt_le decides here
    exact ⟨le, le.trans_lt t.policy.maxAttempts_lt⟩
  · rintro result rfl
    have ends : t.Ends k c ts now result r.polledAt := kept
    exact ⟨ends.of_live, fun e le endsAt => ends.of_ended endsAt le,
      fun instantly fails pos e endsAt => ends.length_of_instant decides instantly fails pos endsAt⟩

/-- Attempts that take two milliseconds each and fail, with pauses of three, until a deadline. -/
def failing : Rehearsal Nat where
  plan := [⟨some (.ofMillis 2), false, .error "down"⟩]
  policy := ⟨4, .ofMillis 3⟩
  context := ⟨⟨0, []⟩, some (.ofMillis 11)⟩
  tokens := ⟨1, []⟩
  cancels := []
  retry := .start
  record := ⟨0, []⟩
  log := []

/-- The third attempt is under way at the deadline. -/
theorem outcome_on_the_clock_failing :
    (failing.run 0).1 = 11 ∧
      (failing.run 0).2.record.polledAt = ((failing.timetable 0).starts 5).filter (· < 11) ∧
      ∃ cause, (failing.run 0).2.retry = .settled (.error (.ended cause)) := by
  obtain ⟨steps, run⟩ := failing.run_timetable (by decide) (by decide) (by decide) rfl rfl 0
  obtain ⟨-, k, decides, outcome⟩ := outcome_on_the_clock (failing.timetable 0) failing.context
    (TimedCancel.schedule failing.tokens failing.cancels)
  obtain ⟨-, -, -, settled⟩ := outcome _ _ _ _ run
  obtain rfl : k = 4 := by
    obtain ⟨a, success⟩ | last := decides.final
    · simp [Rehearsal.timetable, failing, PlannedAttempt.nth] at success
    · exact Nat.succ.inj last
  have endsAt : failing.context.EndsAt (TimedCancel.schedule failing.tokens failing.cancels) 11 :=
    ⟨by decide, by decide⟩
  obtain ⟨-, ended, -⟩ := settled _ rfl
  obtain ⟨here, polled, cause, -, result⟩ := ended 11 (by decide) endsAt
  exact ⟨here, polled, cause, congrArg _ result⟩

/-- With an interval of a second more than thirty years, the second attempt is made and gives its value a
second before that time is over. -/
theorem interval_beyond_longest_wait_returns_early :
    let r : Rehearsal Nat := {
      plan := [⟨none, false, .error "far"⟩, ⟨none, false, .ok 1⟩]
      policy := ⟨1, .ofSecs 946080001⟩
      context := .ofToken ⟨0, []⟩
      tokens := ⟨1, []⟩
      cancels := []
      retry := .start
      record := ⟨0, []⟩
      log := [] }
    (r.run 0).2.retry = .settled (.ok 1) ∧ (r.run 0).2.record.polledAt = [0, 946080000000] ∧
      (r.run 0).1 = 946080000000 ∧ (r.run 0).1 ≠ 0 + (0 + 946080001000) + 0 := by
  refine ⟨rfl, rfl, rfl, by decide⟩

end EvidenceExchange.Timetable
