import EvidenceExchange.Proofs.Retry.Driven

namespace EvidenceExchange

theorem Duration.le_saturating {x n : Nat} (le : x ≤ n) (within : x ≤ longest.nanos) :
    x ≤ (saturating n).nanos := by
  unfold saturating ofNanos?
  split
  · exact le
  · exact within

namespace RetryPolicy

theorem maxAttempts_sub_one_le (p : RetryPolicy) : p.maxAttempts - 1 ≤ p.maxRetries.toNat := by
  have : p.maxAttempts ≤ p.maxRetries.toNat + 1 := Nat.min_le_left ..
  omega

theorem maxAttempts_of_lt (p : RetryPolicy) (lt : p.maxRetries.toNat < UInt32.size - 1) :
    p.maxAttempts - 1 = p.maxRetries.toNat := by
  have : p.maxAttempts = p.maxRetries.toNat + 1 := Nat.min_eq_left lt
  omega

/-- All pauses together take no longer than announced. The longest duration is not exceeded, since
neither the number of pauses nor the length of one can be large enough. -/
theorem pauses_le_totalWait (p : RetryPolicy) {millis : Nat}
    (whole : p.interval.nanos = millis * 1000000) :
    (p.maxAttempts - 1) * p.pause * 1000000 ≤ p.totalWait.nanos := by
  have pause : p.pause = min millis 946080000000 := Duration.ticks_of_millis whole
  have count := p.maxAttempts_sub_one_le
  apply Duration.le_saturating
  · have least : p.pause ≤ millis := by omega
    calc (p.maxAttempts - 1) * p.pause * 1000000
        ≤ p.maxRetries.toNat * millis * 1000000 :=
          Nat.mul_le_mul_right _ (Nat.mul_le_mul count least)
      _ = p.interval.nanos * p.maxRetries.toNat := by
          rw [whole]
          ring
  · have few : p.maxAttempts - 1 ≤ UInt32.size := by
      have := p.maxAttempts_lt
      omega
    have short : p.pause ≤ 946080000000 := by omega
    calc (p.maxAttempts - 1) * p.pause * 1000000
        ≤ UInt32.size * 946080000000 * 1000000 :=
          Nat.mul_le_mul_right _ (Nat.mul_le_mul few short)
      _ ≤ Duration.longest.nanos := by decide

end RetryPolicy

namespace Retry

variable {σ φ α ε : Type} {op : Operation σ φ α ε} {policy : RetryPolicy} {c : Context}
  {paused now : Nat} {retry : Retry φ α ε} {b d : Scene σ φ α ε}

/-- How long a retry has been pausing when it stands so at an instant. All of its pauses are over but
the one that it is in. -/
inductive Spent (policy : RetryPolicy) : Nat → Nat → Retry φ α ε → Prop
  | calling {k now} (within : k < policy.maxAttempts) :
      Spent policy (k * policy.pause) now (.calling (k + 1))
  | trying {k now work} (within : k < policy.maxAttempts) :
      Spent policy (k * policy.pause) now (.trying (k + 1) work)
  | pausing {k paused now wake} (within : k + 1 < policy.maxAttempts) (early : now ≤ wake)
      (rest : paused + (wake - now) = (k + 1) * policy.pause) :
      Spent policy paused now (.pausing (k + 1) wake)
  | exhausted {k now last} (all : k + 1 = policy.maxAttempts) :
      Spent policy (k * policy.pause) now (.settled (.error (.exhausted (k + 1) last)))
  | succeeded {paused now a} (le : paused ≤ (policy.maxAttempts - 1) * policy.pause) :
      Spent policy paused now (.settled (.ok a))
  | ended {paused now cause} (le : paused ≤ (policy.maxAttempts - 1) * policy.pause) :
      Spent policy paused now (.settled (.error (.ended cause)))

theorem pauses_le {k : Nat} (within : k < policy.maxAttempts) :
    k * policy.pause ≤ (policy.maxAttempts - 1) * policy.pause :=
  Nat.mul_le_mul_right _ (by omega)

theorem Spent.le (spent : Spent policy paused now retry) :
    paused ≤ (policy.maxAttempts - 1) * policy.pause := by
  cases spent with
  | calling within | trying within => exact pauses_le within
  | pausing within early rest =>
    have := pauses_le within
    omega
  | exhausted all => exact pauses_le (by omega)
  | succeeded le | ended le => exact le

theorem Spent.afterFailure {k : Nat} (within : k < policy.maxAttempts) (now : Nat) (e : ε) :
    Spent policy (k * policy.pause) now
      (Retry.afterFailure (α := α) op policy now (k + 1) e).1 := by
  unfold Retry.afterFailure
  split
  next all =>
    have all : k + 1 = policy.maxAttempts := by omega
    exact .exhausted all
  next more =>
    have wakes : ((Instant.ofMillis now).afterWait policy.interval).tick = now + policy.pause :=
      Duration.tick_afterWait ..
    rw [wakes]
    have rest : k * policy.pause + (now + policy.pause - now) = (k + 1) * policy.pause := by
      rw [Nat.add_sub_cancel_left, Nat.succ_mul]
    exact .pausing (by omega) (Nat.le_add_right ..) rest

theorem Spent.poll {ts : Tokens} {world world' : σ} {retry' : Retry φ α ε} {log : List LogEvent}
    (spent : Spent policy paused now retry)
    (moved : move op policy c ts now retry world = some (retry', world', log)) :
    Spent policy paused now retry' := by
  have le := spent.le
  cases spent with
  | calling within =>
    rw [move_calling] at moved
    split at moved
    next =>
      cases moved
      exact .ended le
    next =>
      cases moved
      exact .trying within
  | trying within =>
    rcases move_trying_cases moved with ⟨work, rfl⟩ | ⟨e, rfl⟩ | ⟨a, rfl⟩ | ⟨cause, rfl⟩
    · exact .trying within
    · exact .afterFailure within now e
    · exact .succeeded le
    · exact .ended le
  | @pausing k _ _ wake within early rest =>
    rcases move_pausing_cases moved with ⟨-, due, rfl⟩ | ⟨cause, rfl⟩
    · obtain rfl : paused = (k + 1) * policy.pause := by omega
      exact .calling within
    · exact .ended le
  | exhausted | succeeded | ended => cases moved

theorem Spent.later (spent : Spent policy paused now retry) (apart : retry.isPausing = false)
    (later : Nat) : Spent policy paused later retry := by
  cases spent with
  | calling within => exact .calling within
  | trying within => exact .trying within
  | pausing => cases apart
  | exhausted all => exact .exhausted all
  | succeeded le => exact .succeeded le
  | ended le => exact .ended le

/-- The clock stops at the end of a pause. -/
theorem Spent.pass {ts : Tokens} {world : σ} {later : Nat} (spent : Spent policy paused now retry)
    (lt : now < later) (idle : move op policy c ts now retry world = none)
    (least : ∀ u ∈ retry.timers op c, now < u → later ≤ u) (pauses : retry.isPausing = true) :
    Spent policy (paused + (later - now)) later retry := by
  cases spent with
  | @pausing k _ _ wake within early rest =>
    -- At the end of the pause there would be something to do.
    have ahead : now < wake := by
      by_contra due
      simp only [move] at idle
      split at idle
      · cases idle
      · rw [if_pos (by omega)] at idle
        cases idle
    have le : later ≤ wake := least wake List.mem_cons_self ahead
    have rest : paused + (later - now) + (wake - later) = (k + 1) * policy.pause := by omega
    exact .pausing within le rest
  | calling | trying | exhausted | succeeded | ended => cases pauses

theorem Spent.step (spent : Spent policy paused b.now b.retry) (step : Driven op policy c b d) :
    Spent policy (paused + if b.retry.isPausing then d.now - b.now else 0) d.now d.retry := by
  cases step with
  | poll moved =>
    rw [Nat.sub_self, ite_self]
    exact spent.poll moved
  | meanwhile =>
    rw [Nat.sub_self, ite_self]
    exact spent
  | pass lt idle least =>
    split
    next pauses => exact spent.pass lt idle least pauses
    next apart => exact spent.later (Bool.eq_false_iff.mpr apart) _

theorem spent_of_run {ts : Tokens} {world : σ}
    (run : DrivenRun op policy c ⟨now, ts, .start, world⟩ paused b) :
    Spent policy paused b.now b.retry := by
  induction run with
  | refl =>
    have spent : Spent (φ := φ) (α := α) (ε := ε) policy (0 * policy.pause) now .start :=
      .calling policy.maxAttempts_pos
    rwa [Nat.zero_mul] at spent
  | tail _ step ih => exact ih.step step

theorem Spent.of_exhausted {attempts : Nat} {last : ε} (spent : Spent policy paused now retry)
    (ends : retry = .settled (.error (.exhausted attempts last))) :
    attempts = policy.maxAttempts ∧ paused = (policy.maxAttempts - 1) * policy.pause := by
  subst ends
  cases spent with
  | exhausted all => exact ⟨all, by rw [← all, Nat.add_sub_cancel]⟩

/-- How long a retry pauses between its attempts, with an interval of whole milliseconds, whatever its
operation does and whenever its context ends. It is never longer than announced. If the retry makes all
of its attempts, they are as many as the policy allows, and there is a pause of the interval between any
two of them, or of thirty years if the interval is longer. That is one pause for each retry, unless there
are too many retries to count the attempts. -/
theorem pauses_within_total_wait {millis : Nat} {ts : Tokens} {world : σ}
    (whole : policy.interval.nanos = millis * 1000000)
    (run : DrivenRun op policy c ⟨now, ts, .start, world⟩ paused b) :
    paused * 1000000 ≤ policy.totalWait.nanos ∧
      ∀ attempts last, b.retry = .settled (.error (.exhausted attempts last)) →
        attempts = policy.maxAttempts ∧ paused = (attempts - 1) * min millis 946080000000 ∧
          (policy.maxRetries.toNat < UInt32.size - 1 →
            paused = policy.maxRetries.toNat * min millis 946080000000) := by
  have spent := spent_of_run run
  refine ⟨?_, fun attempts last ends => ?_⟩
  · calc paused * 1000000
        ≤ (policy.maxAttempts - 1) * policy.pause * 1000000 := Nat.mul_le_mul_right _ spent.le
      _ ≤ policy.totalWait.nanos := policy.pauses_le_totalWait whole
  · obtain ⟨all, total⟩ := spent.of_exhausted ends
    have pause : policy.pause = min millis 946080000000 := Duration.ticks_of_millis whole
    rw [pause] at total
    refine ⟨all, by rw [all, total], fun few => ?_⟩
    rw [total, policy.maxAttempts_of_lt few]

/-- Attempts that take two milliseconds each and fail, with pauses of three, and time for three of them. -/
def patient : Rehearsal Nat where
  plan := [⟨some (.ofMillis 2), false, .error "down"⟩]
  policy := ⟨2, .ofMillis 3⟩
  context := ⟨⟨0, []⟩, some (.ofMillis 13)⟩
  tokens := ⟨1, []⟩
  cancels := []
  retry := .start
  record := ⟨0, []⟩
  log := []

theorem pauses_within_total_wait_three_attempts :
    ∃ paused, DrivenRun (PlannedAttempt.operation patient.plan) patient.policy patient.context
        (Rehearsal.scene (0, patient)) paused (Rehearsal.scene (patient.run 0)) ∧
      (patient.run 0).2.retry = .settled (.error (.exhausted 3 "down")) ∧ paused = 2 * 3 := by
  obtain ⟨paused, run⟩ := patient.drivenRun_run 0 rfl
  have ends : (patient.run 0).2.retry = .settled (.error (.exhausted 3 "down")) := rfl
  have whole : patient.policy.interval.nanos = 3 * 1000000 := rfl
  obtain ⟨-, exactly⟩ := pauses_within_total_wait whole run
  obtain ⟨-, total, -⟩ := exactly 3 "down" ends
  exact ⟨paused, run, ends, total⟩

/-- Two attempts that fail at once, with a second more than thirty years between them. -/
def farApart : Rehearsal Nat where
  plan := [⟨none, false, .error "far"⟩]
  policy := ⟨1, .ofMillis 946080001000⟩
  context := .ofToken ⟨0, []⟩
  tokens := ⟨1, []⟩
  cancels := []
  retry := .start
  record := ⟨0, []⟩
  log := []

/-- The pause falls short of the interval, long before the end of the clock. -/
theorem interval_beyond_longest_wait_pauses_less :
    ((Instant.ofMillis 0).add? farApart.policy.interval).isSome = true ∧
      (farApart.run 0).2.retry = .settled (.error (.exhausted 2 "far")) ∧
      ∃ paused, DrivenRun (PlannedAttempt.operation farApart.plan) farApart.policy farApart.context
          (Rehearsal.scene (0, farApart)) paused (Rehearsal.scene (farApart.run 0)) ∧
        paused ≠ 1 * 946080001000 := by
  obtain ⟨paused, run⟩ := farApart.drivenRun_run 0 rfl
  have ends : (farApart.run 0).2.retry = .settled (.error (.exhausted 2 "far")) := rfl
  obtain ⟨-, total⟩ := (spent_of_run run).of_exhausted ends
  have short : (farApart.policy.maxAttempts - 1) * farApart.policy.pause ≠ 1 * 946080001000 := by decide
  exact ⟨rfl, ends, paused, run, total ▸ short⟩

end Retry

end EvidenceExchange
