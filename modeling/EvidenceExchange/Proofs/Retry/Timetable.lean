import EvidenceExchange.Retry.Rehearsal
import Mathlib

namespace EvidenceExchange

namespace Duration

/-- How many milliseconds of the clock a wait of so long lasts. -/
def ticks (d : Duration) : Nat := (Instant.afterWait ⟨0⟩ d).tick

theorem tick_afterWait (d : Duration) (now : Nat) :
    ((Instant.ofMillis now).afterWait d).tick = now + d.ticks := by
  simp only [ticks, Instant.afterWait, Instant.ofMillis, Instant.tick]
  omega

/-- No wait lasts longer than thirty years. -/
theorem ticks_of_millis {d : Duration} {millis : Nat} (whole : d.nanos = millis * 1000000) :
    d.ticks = min millis 946080000000 := by
  have longest : Instant.longestWait = 946080000000 * 1000000 := by decide
  have wait : Nat.min (millis * 1000000) Instant.longestWait = min millis 946080000000 * 1000000 := by
    rw [← Nat.mul_min_mul_right, longest]
  simp only [ticks, Instant.afterWait, Instant.tick, whole, wait]
  omega

end Duration

namespace RetryPolicy

/-- How many milliseconds of the clock a pause between two attempts lasts. -/
def pause (p : RetryPolicy) : Nat := p.interval.ticks

theorem maxAttempts_pos (p : RetryPolicy) : 0 < p.maxAttempts := by
  simp [maxAttempts]

theorem maxAttempts_lt (p : RetryPolicy) : p.maxAttempts < UInt32.size :=
  (Nat.min_le_right ..).trans_lt (by decide)

end RetryPolicy

/-- A retry on the clock. Its attempts are counted from zero. -/
structure Timetable (α ε : Type) where
  policy : RetryPolicy
  start : Nat
  /-- How many milliseconds an attempt takes. -/
  takes : Nat → Nat
  gives : Nat → Except ε α
  describe : ε → String

namespace Timetable

variable {α ε : Type} (t : Timetable α ε)

/-- The instant at which an attempt starts: all those before it have failed and were followed by a
pause. -/
def startOf (j : Nat) : Nat := t.start + ∑ l ∈ Finset.range j, (t.takes l + t.policy.pause)

def endOf (j : Nat) : Nat := t.startOf j + t.takes j

/-- The instants at which the first so many attempts start. -/
def starts (count : Nat) : List Nat := (List.range count).map t.startOf

/-- The attempt that settles the retry if nothing comes in between: the first success, or else the last
attempt that there is. -/
structure Decides (k : Nat) : Prop where
  within : k < t.policy.maxAttempts
  failed : ∀ j < k, ∃ e, t.gives j = .error e
  final : (∃ a, t.gives k = .ok a) ∨ k + 1 = t.policy.maxAttempts

theorem exists_decides : ∃ k, t.Decides k := by
  have pos := t.policy.maxAttempts_pos
  have found : ∃ k, (∃ a, t.gives k = .ok a) ∨ k + 1 = t.policy.maxAttempts :=
    ⟨t.policy.maxAttempts - 1, .inr (by omega)⟩
  classical
  refine ⟨Nat.find found, ?_, fun j lt => ?_, Nat.find_spec found⟩
  · have least := Nat.find_min' found (m := t.policy.maxAttempts - 1) (.inr (by omega))
    omega
  · have early := Nat.find_min found lt
    cases gives : t.gives j with
    | ok a => exact absurd (.inl ⟨a, gives⟩) early
    | error e => exact ⟨e, rfl⟩

@[simp]
theorem startOf_zero : t.startOf 0 = t.start := by simp [startOf]

theorem startOf_succ (j : Nat) : t.startOf (j + 1) = t.endOf j + t.policy.pause := by
  simp only [endOf, startOf, Finset.sum_range_succ]
  omega

theorem startOf_le_endOf (j : Nat) : t.startOf j ≤ t.endOf j := Nat.le_add_right ..

theorem endOf_le_startOf_succ (j : Nat) : t.endOf j ≤ t.startOf (j + 1) := by
  rw [startOf_succ]
  exact Nat.le_add_right ..

theorem startOf_mono : Monotone t.startOf :=
  monotone_nat_of_le_succ fun j => (t.startOf_le_endOf j).trans (t.endOf_le_startOf_succ j)

theorem endOf_mono : Monotone t.endOf :=
  monotone_nat_of_le_succ fun j => (t.endOf_le_startOf_succ j).trans (t.startOf_le_endOf _)

theorem start_le_startOf (j : Nat) : t.start ≤ t.startOf j := Nat.le_add_right ..

theorem starts_succ (count : Nat) : t.starts (count + 1) = t.starts count ++ [t.startOf count] := by
  simp [starts, List.range_succ]

@[simp]
theorem length_starts (count : Nat) : (t.starts count).length = count := by simp [starts]

/-- The attempts that start before an instant are the first ones. -/
theorem starts_filter {m count instant : Nat} (le : m ≤ count) (before : ∀ j < m, t.startOf j < instant)
    (after : m < count → instant ≤ t.startOf m) :
    (t.starts count).filter (· < instant) = t.starts m := by
  obtain ⟨more, rfl⟩ := Nat.exists_eq_add_of_le le
  have late : ∀ j, j < more → instant ≤ t.startOf (m + j) := fun j lt =>
    (after (by omega)).trans (t.startOf_mono (Nat.le_add_right ..))
  rw [starts, List.range_add, List.map_append, List.filter_append, List.filter_eq_self.mpr,
    List.filter_eq_nil_iff.mpr, List.append_nil, starts]
  · simpa using late
  · simpa using before

/-- Attempts of a timetable, with a record of their first polls. -/
def operation : Operation RehearsalRecord PlannedWork α ε where
  call r := (.called r.calls, { r with calls := r.calls + 1 })
  poll now work r :=
    match work with
    | .called j =>
      .progress (.running j (some (now + t.takes j))) { r with polledAt := r.polledAt ++ [now] }
    | .running j ready => if ready.any (· ≤ now) then .finished (t.gives j) r else .waiting
  timers
    | .called _ => []
    | .running _ ready => ready.toList
  describe := t.describe

end Timetable

end EvidenceExchange
