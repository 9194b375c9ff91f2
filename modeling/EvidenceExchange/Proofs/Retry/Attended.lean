import EvidenceExchange.Proofs.Exclusion
import EvidenceExchange.Proofs.Retry.Timetable

namespace EvidenceExchange

namespace Retry

variable {σ φ α ε : Type}

/-- The steps of a retry that is attended to. The cancels of an instant come before its polls. -/
inductive Attended (op : Operation σ φ α ε) (policy : RetryPolicy) (c : Context) (ts : Nat → Tokens) :
    Nat × Retry φ α ε × σ → Nat × Retry φ α ε × σ → Prop
  | poll {now retry world retry' world' log}
      (moved : move op policy c (ts now) now retry world = some (retry', world', log)) :
      Attended op policy c ts (now, retry, world) (now, retry', world')
  | wait {now later retry world} (lt : now < later) (live : retry.isOver = false)
      (idle : move op policy c (ts now) now retry world = none)
      (woken : ∀ u, now < u → u < later → u ∉ retry.timers op c ∧ c.ended? (ts u) u = none) :
      Attended op policy c ts (now, retry, world) (later, retry, world)

/-- A run of so many steps. -/
inductive AttendedRun (op : Operation σ φ α ε) (policy : RetryPolicy) (c : Context) (ts : Nat → Tokens)
    (a : Nat × Retry φ α ε × σ) : Nat → Nat × Retry φ α ε × σ → Prop
  | refl : AttendedRun op policy c ts a 0 a
  | tail {steps b d} (run : AttendedRun op policy c ts a steps b) (step : Attended op policy c ts b d) :
      AttendedRun op policy c ts a (steps + 1) d

/-- The number of the attempt that a retry has come to. -/
def attempt? : Retry φ α ε → Option Nat
  | calling attempt | trying attempt _ | pausing attempt _ => some attempt
  | settled _ => none

theorem exists_attended (op : Operation σ φ α ε) (policy : RetryPolicy) (c : Context)
    (ts : Nat → Tokens) {retry : Retry φ α ε} (live : retry.isOver = false) (now : Nat) (world : σ) :
    ∃ next, Attended op policy c ts (now, retry, world) next := by
  cases moved : move op policy c (ts now) now retry world with
  | some m => exact ⟨_, .poll moved⟩
  | none => exact ⟨(now + 1, retry, world), .wait (by omega) live moved fun u after before => by omega⟩

end Retry

/-- The tokens of an instant, where no cancel is taken back. -/
structure Schedule where
  tokens : Nat → Tokens
  grows : ∀ u v, u ≤ v → (tokens u).cancelled ⊆ (tokens v).cancelled

/-- A context has not ended at an instant. -/
def Context.LiveAt (c : Context) (ts : Schedule) (now : Nat) : Prop :=
  c.ended? (ts.tokens now) now = none

instance (c : Context) (ts : Schedule) (now : Nat) : Decidable (c.LiveAt ts now) :=
  inferInstanceAs (Decidable (c.ended? (ts.tokens now) now = none))

theorem Context.LiveAt.earlier {c : Context} {ts : Schedule} {u v : Nat} (live : c.LiveAt ts v)
    (le : u ≤ v) : c.LiveAt ts u :=
  live_of_later le (ts.grows u v le) live

/-- The first instant at which a context has ended. -/
structure Context.EndsAt (c : Context) (ts : Schedule) (instant : Nat) : Prop where
  before : ∀ u < instant, c.LiveAt ts u
  ended : ¬c.LiveAt ts instant

namespace Timetable

variable {α ε : Type} (t : Timetable α ε) (k : Nat) (c : Context) (ts : Schedule)

/-- How a retry stands whose attempts up to one of them have failed, before its context has ended. -/
inductive OnTime : Nat → Retry PlannedWork α ε → RehearsalRecord → Prop
  | calling {m} (within : m ≤ k) (live : m = 0 ∨ c.LiveAt ts (t.startOf m)) :
      OnTime (t.startOf m) (.calling (m + 1)) ⟨m, t.starts m⟩
  | called {m} (within : m ≤ k) (live : c.LiveAt ts (t.startOf m)) :
      OnTime (t.startOf m) (.trying (m + 1) (.called m)) ⟨m + 1, t.starts m⟩
  | running {m now} (within : m ≤ k) (begun : t.startOf m ≤ now) (left : now ≤ t.endOf m)
      (live : c.LiveAt ts (t.startOf m)) (quiet : ∀ u < now, c.LiveAt ts u) :
      OnTime now (.trying (m + 1) (.running m (some (t.endOf m)))) ⟨m + 1, t.starts (m + 1)⟩
  | pausing {m now} (within : m + 1 ≤ k) (begun : t.endOf m ≤ now) (left : now ≤ t.startOf (m + 1))
      (live : c.LiveAt ts (t.endOf m)) (quiet : ∀ u < now, c.LiveAt ts u) :
      OnTime now (.pausing (m + 1) (t.startOf (m + 1))) ⟨m + 1, t.starts (m + 1)⟩

/-- How a retry ends: with the attempt that settles it, or with its context. -/
inductive Ends : Nat → Except (RetryError ε) α → List Nat → Prop
  | decided (live : c.LiveAt ts (t.endOf k)) :
      Ends (t.endOf k) ((t.gives k).mapError (.exhausted t.policy.maxAttempts)) (t.starts (k + 1))
  | ended {m now cause} (ended : c.ended? (ts.tokens now) now = some cause) (within : m ≤ k + 1)
      (begun : t.start ≤ now) (first : now = t.start ∨ ∀ u < now, c.LiveAt ts u)
      (before : ∀ j < m, t.startOf j < now)
      (after : m ≤ k → now ≤ t.startOf m) (last : now ≤ t.endOf k) :
      Ends now (.error (.ended cause)) (t.starts m)

/-- An attended retry has kept to its timetable until now, or until it ended. -/
def OnTimeOrEnded (now : Nat) (retry : Retry PlannedWork α ε) (r : RehearsalRecord) : Prop :=
  match retry with
  | .settled result => t.Ends k c ts now result r.polledAt
  | retry => t.OnTime k c ts now retry r

/-- A bound on the steps that are left. -/
def left (now : Nat) : Retry PlannedWork α ε → Nat
  | .calling attempt => t.endOf k - now + 4 * (k + 2 - attempt) + 3
  | .trying attempt (.called _) => t.endOf k - now + 4 * (k + 2 - attempt) + 2
  | .trying attempt (.running _ _) => t.endOf k - now + 4 * (k + 2 - attempt) + 1
  | .pausing attempt _ => t.endOf k - now + 4 * (k + 2 - attempt)
  | .settled _ => 0

variable {t k c ts} {now later m : Nat} {retry retry' : Retry PlannedWork α ε} {r r' : RehearsalRecord}
  {log : List LogEvent}

theorem lt_of_live_of_ended {u : Nat} {cause : Cancellation} (live : c.LiveAt ts u)
    (ended : c.ended? (ts.tokens now) now = some cause) (le : u ≤ now) : u < now := by
  refine le.lt_of_ne ?_
  rintro rfl
  cases live.symm.trans ended

/-- The first poll of all, and the one that follows a pause. -/
theorem poll_calling (within : m ≤ k) (live : m = 0 ∨ c.LiveAt ts (t.startOf m))
    (moved : (Retry.calling (m + 1)).move t.operation t.policy c (ts.tokens (t.startOf m)) (t.startOf m)
      ⟨m, t.starts m⟩ = some (retry', r', log)) :
    t.OnTimeOrEnded k c ts (t.startOf m) retry' r' ∧
      t.left k (t.startOf m) retry' < t.left k (t.startOf m) (.calling (m + 1)) := by
  simp only [Retry.move, operation] at moved
  split at moved
  next cause ended =>
    cases moved
    -- Later attempts follow a pause whose last poll found the context live at the same instant.
    have first : m = 0 := live.resolve_right fun live => by cases live.symm.trans ended
    subst first
    have last : t.startOf 0 ≤ t.endOf k := (t.startOf_le_endOf 0).trans (t.endOf_mono (Nat.zero_le k))
    refine ⟨.ended ended (Nat.zero_le _) (t.start_le_startOf 0) (.inl t.startOf_zero) (by simp)
      (fun _ => le_rfl) last, ?_⟩
    simp only [left]
    omega
  next live =>
    cases moved
    refine ⟨.called within live, ?_⟩
    simp only [left]
    omega

theorem poll_called (within : m ≤ k) (live : c.LiveAt ts (t.startOf m))
    (moved : (Retry.trying (m + 1) (.called m)).move t.operation t.policy c (ts.tokens (t.startOf m))
      (t.startOf m) ⟨m + 1, t.starts m⟩ = some (retry', r', log)) :
    t.OnTimeOrEnded k c ts (t.startOf m) retry' r' ∧
      t.left k (t.startOf m) retry' < t.left k (t.startOf m) (.trying (m + 1) (.called m)) := by
  have pending := live
  rw [Context.LiveAt, ← Context.pollDone_eq_ended?] at pending
  simp only [Retry.move, operation, pending] at moved
  cases moved
  constructor
  · have running := OnTime.running within le_rfl (t.startOf_le_endOf m) live fun u lt =>
      live.earlier lt.le
    rw [starts_succ] at running
    exact running
  · simp only [left]
    omega

/-- The context ends while an attempt is under way or during the pause after it. -/
theorem ends_of_ended {cause : Cancellation} (begun : t.startOf m ≤ now) (live : c.LiveAt ts (t.startOf m))
    (quiet : ∀ u < now, c.LiveAt ts u) (ended : c.ended? (ts.tokens now) now = some cause)
    (within : m ≤ k) (after : m + 1 ≤ k → now ≤ t.startOf (m + 1)) (last : now ≤ t.endOf k) :
    t.Ends k c ts now (.error (.ended cause)) (t.starts (m + 1)) := by
  have begun : t.startOf m < now := lt_of_live_of_ended live ended begun
  have started := (t.start_le_startOf m).trans begun.le
  refine .ended ended (by omega) started (.inr quiet) (fun j lt => ?_) after last
  exact (t.startOf_mono (Nat.le_of_lt_succ lt)).trans_lt begun

theorem poll_running (decides : t.Decides k) (within : m ≤ k) (begun : t.startOf m ≤ now)
    (due : now ≤ t.endOf m) (live : c.LiveAt ts (t.startOf m)) (quiet : ∀ u < now, c.LiveAt ts u)
    (moved : (Retry.trying (m + 1) (.running m (some (t.endOf m)))).move t.operation t.policy c
      (ts.tokens now) now ⟨m + 1, t.starts (m + 1)⟩ = some (retry', r', log)) :
    t.OnTimeOrEnded k c ts now retry' r' ∧
      t.left k now retry' < t.left k now (.trying (m + 1) (.running m (some (t.endOf m)))) := by
  simp only [Retry.move, operation, Context.pollDone_eq_ended?] at moved
  split at moved
  next cause ended =>
    cases moved
    refine ⟨ends_of_ended begun live quiet ended within (fun _ => ?_) ?_, ?_⟩
    · exact due.trans (t.endOf_le_startOf_succ m)
    · exact due.trans (t.endOf_mono within)
    · simp only [left]
      omega
  next pending =>
    by_cases ready : t.endOf m ≤ now
    · -- The clock has not passed over the end of the attempt, so this is the instant of it.
      obtain rfl := due.antisymm ready
      simp only [Option.any_some, le_refl, decide_true, if_true] at moved
      cases gives : t.gives m with
      | ok a =>
        obtain rfl : m = k := within.eq_or_lt.resolve_right fun lt => by
          obtain ⟨e, failed⟩ := decides.failed m lt
          cases gives.symm.trans failed
        simp only [gives] at moved
        cases moved
        constructor
        · have ends : t.Ends m c ts (t.endOf m) _ _ := .decided pending
          rw [gives] at ends
          exact ends
        · simp only [left]
          omega
      | error e =>
        have last := decides.within
        simp only [gives, Retry.afterFailure, Duration.tick_afterWait] at moved
        split at moved
        next final =>
          obtain rfl : m = k := by omega
          have all : m + 1 = t.policy.maxAttempts := by omega
          cases moved
          constructor
          · have ends : t.Ends m c ts (t.endOf m) _ _ := .decided pending
            rw [gives, ← all] at ends
            exact ends
          · simp only [left]
            omega
        next more =>
          have within : m + 1 ≤ k := by
            refine within.lt_of_ne ?_
            rintro rfl
            obtain ⟨a, success⟩ | all := decides.final
            · cases gives.symm.trans success
            · omega
          cases moved
          constructor
          · have pausing := OnTime.pausing within le_rfl (t.endOf_le_startOf_succ m) pending quiet
            rw [startOf_succ] at pausing
            exact pausing
          · simp only [left]
            omega
    · simp [ready] at moved

/-- The end of a pause is the time of the next attempt. -/
theorem poll_pausing (within : m + 1 ≤ k) (begun : t.endOf m ≤ now) (due : now ≤ t.startOf (m + 1))
    (live : c.LiveAt ts (t.endOf m)) (quiet : ∀ u < now, c.LiveAt ts u)
    (moved : (Retry.pausing (m + 1) (t.startOf (m + 1))).move t.operation t.policy c
      (ts.tokens now) now ⟨m + 1, t.starts (m + 1)⟩ = some (retry', r', log)) :
    t.OnTimeOrEnded k c ts now retry' r' ∧
      t.left k now retry' < t.left k now (.pausing (m + 1) (t.startOf (m + 1))) := by
  have started := (t.startOf_le_endOf m).trans begun
  simp only [Retry.move, Context.pollDone_eq_ended?] at moved
  split at moved
  next cause ended =>
    cases moved
    have within' : m ≤ k := by omega
    refine ⟨ends_of_ended started (live.earlier (t.startOf_le_endOf m)) quiet ended within'
      (fun _ => due) ?_, ?_⟩
    · exact due.trans ((t.startOf_le_endOf _).trans (t.endOf_mono within))
    · simp only [left]
      omega
  next pending =>
    split at moved
    next ready =>
      cases moved
      obtain rfl := due.antisymm ready
      refine ⟨.calling within (.inr pending), ?_⟩
      simp only [left]
      omega
    next => cases moved

theorem OnTime.poll (decides : t.Decides k) (onTime : t.OnTime k c ts now retry r)
    (moved : retry.move t.operation t.policy c (ts.tokens now) now r = some (retry', r', log)) :
    t.OnTimeOrEnded k c ts now retry' r' ∧ t.left k now retry' < t.left k now retry := by
  cases onTime with
  | calling within live => exact poll_calling within live moved
  | called within live => exact poll_called within live moved
  | running within begun due live quiet => exact poll_running decides within begun due live quiet moved
  | pausing within begun due live quiet => exact poll_pausing within begun due live quiet moved

/-- A retry that waits is woken in time, and nothing has ended its context before. -/
theorem OnTime.wait (onTime : t.OnTime k c ts now retry r) (lt : now < later)
    (idle : retry.move t.operation t.policy c (ts.tokens now) now r = none)
    (woken : ∀ u, now < u → u < later →
      u ∉ retry.timers t.operation c ∧ c.ended? (ts.tokens u) u = none) :
    t.OnTime k c ts later retry r ∧ t.left k later retry < t.left k now retry := by
  have stays : (∀ u < now, c.LiveAt ts u) → c.LiveAt ts now → ∀ u < later, c.LiveAt ts u := by
    intro quiet here u before
    obtain earlier | rfl | after := lt_trichotomy u now
    · exact quiet u earlier
    · exact here
    · exact (woken u after before).2
  cases onTime with
  | calling =>
    simp only [Retry.move, operation] at idle
    split at idle <;> cases idle
  | called =>
    simp only [Retry.move, operation] at idle
    split at idle <;> cases idle
  | @running m _ within begun due live quiet =>
    simp only [Retry.move, operation, Context.pollDone_eq_ended?] at idle
    split at idle
    next => cases idle
    next pending =>
      have unready : ¬t.endOf m ≤ now := by
        intro ready
        cases gives : t.gives m <;> simp [ready, gives] at idle
      have in_time : later ≤ t.endOf m := by
        by_contra late
        exact (woken (t.endOf m) (by omega) (by omega)).1 (by simp [Retry.timers, operation])
      have last := t.endOf_mono within
      refine ⟨.running within (begun.trans lt.le) in_time live (stays quiet pending), ?_⟩
      simp only [left]
      omega
  | @pausing m _ within begun due live quiet =>
    simp only [Retry.move, Context.pollDone_eq_ended?] at idle
    split at idle
    next => cases idle
    next pending =>
      split at idle
      next => cases idle
      next unready =>
        have in_time : later ≤ t.startOf (m + 1) := by
          by_contra late
          exact (woken (t.startOf (m + 1)) (by omega) (by omega)).1 (by simp [Retry.timers])
        have last := (t.startOf_le_endOf (m + 1)).trans (t.endOf_mono within)
        refine ⟨.pausing within (begun.trans lt.le) in_time live (stays quiet pending), ?_⟩
        simp only [left]
        omega

theorem OnTimeOrEnded.onTime (kept : t.OnTimeOrEnded k c ts now retry r)
    (live : retry.isOver = false) :
    t.OnTime k c ts now retry r := by
  cases retry with
  | calling | trying | pausing => exact kept
  | settled => cases live

theorem OnTime.orEnded (onTime : t.OnTime k c ts now retry r) : t.OnTimeOrEnded k c ts now retry r := by
  cases onTime with
  | calling within live => exact .calling within live
  | called within live => exact .called within live
  | running within begun due live quiet => exact .running within begun due live quiet
  | pausing within begun due live quiet => exact .pausing within begun due live quiet

theorem OnTimeOrEnded.attended {b d : Nat × Retry PlannedWork α ε × RehearsalRecord}
    (decides : t.Decides k) (kept : t.OnTimeOrEnded k c ts b.1 b.2.1 b.2.2)
    (step : Retry.Attended t.operation t.policy c ts.tokens b d) :
    t.OnTimeOrEnded k c ts d.1 d.2.1 d.2.2 ∧ t.left k d.1 d.2.1 < t.left k b.1 b.2.1 := by
  cases step with
  | @poll now retry r retry' r' log moved =>
    have live : retry.isOver = false := by
      cases retry with
      | calling | trying | pausing => rfl
      | settled => cases moved
    exact (kept.onTime live).poll decides moved
  | @wait now later retry r lt live idle woken =>
    obtain ⟨onTime, less⟩ := (kept.onTime live).wait lt idle woken
    exact ⟨onTime.orEnded, less⟩

/-- The runs of a timetable, from its start. -/
def Run (t : Timetable α ε) (c : Context) (ts : Schedule) :
    Nat → Nat × Retry PlannedWork α ε × RehearsalRecord → Prop :=
  Retry.AttendedRun t.operation t.policy c ts.tokens (t.start, .start, ⟨0, []⟩)

theorem onTimeOrEnded_of_run (decides : t.Decides k) {steps : Nat}
    {b : Nat × Retry PlannedWork α ε × RehearsalRecord} (run : t.Run c ts steps b) :
    t.OnTimeOrEnded k c ts b.1 b.2.1 b.2.2 ∧
      steps + t.left k b.1 b.2.1 ≤ t.endOf k - t.start + 4 * k + 7 := by
  induction run with
  | refl =>
    constructor
    · have first : t.OnTime k c ts (t.startOf 0) (.calling 1) ⟨0, t.starts 0⟩ :=
        .calling (Nat.zero_le k) (.inl rfl)
      rw [startOf_zero] at first
      exact first
    · simp only [Retry.start, left]
      omega
  | @tail steps b d run step ih =>
    obtain ⟨kept, bound⟩ := ih
    obtain ⟨kept', less⟩ := kept.attended decides step
    exact ⟨kept', by omega⟩

end Timetable

end EvidenceExchange
