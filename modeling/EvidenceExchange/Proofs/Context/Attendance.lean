import EvidenceExchange.Context.Waiting
import EvidenceExchange.Proofs.Exclusion

namespace EvidenceExchange

namespace Waiting

variable {α : Type}

/-- What the context of a wait shows. -/
def shown (a : Nat × Waiting α) : Option Cancellation :=
  a.2.context.ended? a.2.tokens a.1

/-- The work that is waited for is ready, if it is waited for any. -/
def Ready (a : Nat × Waiting α) : Prop :=
  ∃ work ready, a.2.work = some work ∧ work.ready = some ready ∧ ready ≤ a.1

/-- The early look at the context tells what the race would tell. -/
theorem moveWait_eq_poll (now : Nat) (w : Waiting α) : w.moveWait now = w.poll now := by
  unfold moveWait
  split
  next =>
    split
    next cause ended => rw [poll, Context.pollDone_eq_ended?, ended]
    next => rfl
  next => rfl

/-- What a poll makes of a wait. -/
inductive Polled (now : Nat) (w : Waiting α) : Waiting α → Prop
  | ended {cause} (ended : shown (now, w) = some cause) : Polled now w (w.settle (.ended cause))
  | finished {work} (live : shown (now, w) = none) (works : w.work = some work)
      (ready : Ready (now, w)) :
      Polled now w { w.settle (.finished work.value) with polled := true }
  | begun {work} (live : shown (now, w) = none) (works : w.work = some work)
      (unready : ¬Ready (now, w)) (first : w.polled = false) : Polled now w { w with polled := true }

variable {now : Nat} {w w' : Waiting α}

theorem moveWait_of_ended {cause : Cancellation} (ended : shown (now, w) = some cause) :
    w.moveWait now = some (w.settle (.ended cause)) := by
  have ended : w.context.ended? w.tokens now = some cause := ended
  rw [moveWait_eq_poll, poll, Context.pollDone_eq_ended?, ended]

theorem ready_iff {work : Work α} (works : w.work = some work) :
    Ready (now, w) ↔ work.ready.any (· ≤ now) = true := by
  simp [Ready, works, Option.any_eq_true]

theorem moveWait_of_live (live : shown (now, w) = none) :
    w.moveWait now = w.work.bind fun work =>
      if work.ready.any (· ≤ now) then some { w.settle (.finished work.value) with polled := true }
      else if w.polled then none
      else some { w with polled := true } := by
  rw [moveWait_eq_poll, poll, Context.pollDone_eq_ended?, show w.context.ended? w.tokens now = none from live]
  cases w.work <;> rfl

theorem polled_of_moveWait (moved : w.moveWait now = some w') : w.Polled now w' := by
  cases live : shown (now, w) with
  | some cause =>
    rw [moveWait_of_ended live] at moved
    cases moved
    exact .ended live
  | none =>
    rw [moveWait_of_live live] at moved
    obtain ⟨work, works, moved⟩ := Option.bind_eq_some_iff.mp moved
    split at moved
    next ready =>
      cases moved
      exact .finished live works ((ready_iff works).mpr ready)
    next unready =>
      split at moved
      next => cases moved
      next first =>
        cases moved
        exact .begun live works (mt (ready_iff works).mp unready) (Bool.eq_false_iff.mpr first)

theorem idle_of_moveWait (idle : w.moveWait now = none) :
    shown (now, w) = none ∧ ¬Ready (now, w) ∧ (w.work.isSome → w.polled = true) := by
  cases live : shown (now, w) with
  | some cause =>
    rw [moveWait_of_ended live] at idle
    cases idle
  | none =>
    rw [moveWait_of_live live] at idle
    refine ⟨rfl, ?_⟩
    cases works : w.work with
    | none => exact ⟨fun ⟨_, _, works', _⟩ => (by cases works.symm.trans works'), fun some => by cases some⟩
    | some work =>
      simp only [works, Option.bind_some] at idle
      split at idle
      next => cases idle
      next unready =>
        split at idle
        next polled => exact ⟨mt (ready_iff works).mp unready, fun _ => polled⟩
        next => cases idle

/-- The steps of a wait that is attended to. -/
inductive Attended : Nat × Waiting α → Nat × Waiting α → Prop
  | poll {now : Nat} {w w' : Waiting α} (pending : w.outcome = none) (moved : w.moveWait now = some w') :
      Attended (now, w) (now, w')
  | cancel {now : Nat} {w : Waiting α} (token : Token) (left : List TimedCancel) :
      Attended (now, w) (now, { w with tokens := w.tokens.cancel token, cancels := left })
  | pass {now later : Nat} {w : Waiting α} (lt : now < later)
      (idle : w.outcome = none → w.moveWait now = none) : Attended (now, w) (later, w)

/-- All steps of a wait that is attended to for ever, on a clock that gets past every instant. -/
structure AttendedForever (x : Nat → Nat × Waiting α) : Prop where
  step : ∀ n, Attended (x n) (x (n + 1))
  onward : ∀ t, ∃ n, t < (x n).1

/-- What only ever changes one way in a wait. -/
structure Later (a b : Nat × Waiting α) : Prop where
  time : a.1 ≤ b.1
  context : b.2.context = a.2.context
  work : b.2.work = a.2.work
  tokens : a.2.tokens.cancelled ⊆ b.2.tokens.cancelled
  settled : ∀ o, a.2.outcome = some o → b.2.outcome = some o

variable {a b d : Nat × Waiting α}

theorem Later.refl (a : Nat × Waiting α) : Later a a :=
  ⟨le_rfl, rfl, rfl, List.Subset.refl _, fun _ => id⟩

theorem Later.trans (h : Later a b) (h' : Later b d) : Later a d where
  time := h.time.trans h'.time
  context := h'.context.trans h.context
  work := h'.work.trans h.work
  tokens := List.Subset.trans h.tokens h'.tokens
  settled o settled := h'.settled o (h.settled o settled)

theorem Later.live (h : Later a b) (live : shown b = none) : shown a = none := by
  unfold shown at live ⊢
  rw [h.context] at live
  exact Context.live_of_later h.time h.tokens live

theorem Later.unready (h : Later a b) (unready : ¬Ready b) : ¬Ready a := by
  rintro ⟨work, ready, works, due, le⟩
  exact unready ⟨work, ready, h.work.trans works, due, le.trans h.time⟩

theorem Attended.later (h : Attended a b) : Later a b := by
  cases h with
  | poll pending moved =>
    have unsettled : ∀ {o} {P : Prop}, _ = some o → P := fun settled => by cases pending.symm.trans settled
    cases polled_of_moveWait moved with
    | ended | finished | begun => exact ⟨le_rfl, rfl, rfl, List.Subset.refl _, fun _ => unsettled⟩
  | cancel => exact ⟨le_rfl, rfl, rfl, List.subset_cons_self .., fun _ => id⟩
  | pass lt => exact ⟨lt.le, rfl, rfl, List.Subset.refl _, fun _ => id⟩

/-- How a wait settles: with the cause that its context shows, or else with the value of its work. -/
inductive Decides (a : Nat × Waiting α) : WaitOutcome α → Prop
  | ended {cause} (ended : shown a = some cause) : Decides a (.ended cause)
  | finished {work} (live : shown a = none) (works : a.2.work = some work) (ready : Ready a) :
      Decides a (.finished work.value)

theorem Attended.decides {o : WaitOutcome α} (h : Attended a b) (pending : a.2.outcome = none)
    (settled : b.2.outcome = some o) : Decides a o := by
  cases h with
  | poll _ moved =>
    cases polled_of_moveWait moved with
    | ended ended =>
      cases settled
      exact .ended ended
    | finished live works ready =>
      cases settled
      exact .finished live works ready
    | begun => cases pending.symm.trans settled
  | cancel | pass => cases pending.symm.trans settled

/-- Work is polled only under a context that has not ended. -/
theorem Attended.polled_eq {cause : Cancellation} (h : Attended a b) (ended : shown a = some cause) :
    b.2.polled = a.2.polled := by
  cases h with
  | poll _ moved =>
    rw [moveWait_of_ended ended] at moved
    cases moved
    rfl
  | cancel | pass => rfl

namespace AttendedForever

variable {x : Nat → Nat × Waiting α} {m n : Nat}

theorem later (attended : AttendedForever x) (le : m ≤ n) : Later (x m) (x n) := by
  induction n, le using Nat.le_induction with
  | base => exact .refl _
  | succ n _ ih => exact ih.trans (attended.step n).later

theorem works (attended : AttendedForever x) {work : Work α} (works : (x 0).2.work = some work) (n : Nat) :
    (x n).2.work = some work :=
  (attended.later (Nat.zero_le n)).work.trans works

/-- A wait that has settled was decided before. -/
theorem exists_decides (attended : AttendedForever x) (fresh : (x 0).2.outcome = none) {o : WaitOutcome α}
    (settled : (x n).2.outcome = some o) : ∃ m < n, Decides (x m) o := by
  induction n with
  | zero => cases fresh.symm.trans settled
  | succ n ih =>
    cases before : (x n).2.outcome with
    | none => exact ⟨n, Nat.lt_succ_self n, (attended.step n).decides before settled⟩
    | some o' =>
      cases ((attended.step n).later.settled o' before).symm.trans settled
      obtain ⟨m, lt, decides⟩ := ih before
      exact ⟨m, lt.trans (Nat.lt_succ_self n), decides⟩

theorem lt_of_time_lt (attended : AttendedForever x) (earlier : (x m).1 < (x n).1) : m < n := by
  by_contra le
  exact absurd (attended.later (Nat.le_of_not_lt le)).time (Nat.not_le_of_lt earlier)

/-- While a wait lasts, nothing that it waits for was there at any instant that is over. -/
theorem quiet (attended : AttendedForever x) (pending : (x n).2.outcome = none) (earlier : (x m).1 < (x n).1) :
    shown (x m) = none ∧ ¬Ready (x m) := by
  have before := attended.lt_of_time_lt earlier
  induction n with
  | zero => omega
  | succ n ih =>
    have unsettled : (x n).2.outcome = none := by
      by_contra settled
      obtain ⟨o, settled⟩ := Option.ne_none_iff_exists'.mp settled
      cases pending.symm.trans ((attended.step n).later.settled o settled)
    by_cases sooner : (x m).1 < (x n).1
    · exact ih unsettled sooner (attended.lt_of_time_lt sooner)
    · -- The clock has only gone on with this step, after a poll that found nothing.
      have since := attended.later (Nat.le_of_lt_succ before)
      obtain ⟨live, unready⟩ : shown (x n) = none ∧ ¬Ready (x n) := by
        generalize x n = a, x (n + 1) = b, attended.step n = step at *
        cases step with
        | poll | cancel => exact absurd earlier sooner
        | pass _ idle =>
          obtain ⟨live, unready, -⟩ := idle_of_moveWait (idle unsettled)
          exact ⟨live, unready⟩
      exact ⟨since.live live, since.unready unready⟩

/-- A wait settles here, as soon as there is something to settle it. -/
structure Settles (x : Nat → Nat × Waiting α) (n : Nat) (o : WaitOutcome α) : Prop where
  decides : Decides (x n) o
  pending : ∀ m ≤ n, (x m).2.outcome = none
  quiet : ∀ m, (x m).1 < (x n).1 → shown (x m) = none ∧ ¬Ready (x m)
  settled : ∀ m > n, (x m).2.outcome = some o

theorem Settles.outcome {o : WaitOutcome α} (settles : Settles x n o) (m : Nat) :
    (x m).2.outcome = if m ≤ n then none else some o := by
  split
  next le => exact settles.pending m le
  next gt => exact settles.settled m (Nat.lt_of_not_le gt)

/-- A wait that is attended to settles at the first instant at which there is something to settle it, and
lasts for ever if there never is. -/
theorem settles_or_lasts (attended : AttendedForever x) (fresh : (x 0).2.outcome = none) :
    (∃ n o, Settles x n o) ∨
      ∀ n, (x n).2.outcome = none ∧ shown (x n) = none ∧ ¬Ready (x n) := by
  by_cases ever : ∃ n, (x n).2.outcome ≠ none
  · obtain ⟨k, first⟩ : ∃ k, Nat.find ever = k + 1 := by
      refine Nat.exists_eq_succ_of_ne_zero fun zero => ?_
      exact absurd (zero ▸ fresh) (Nat.find_spec ever)
    have pending : ∀ m ≤ k, (x m).2.outcome = none := fun m le => by
      by_contra settled
      have := Nat.find_min' ever settled
      omega
    obtain ⟨o, settled⟩ := Option.ne_none_iff_exists'.mp (first ▸ Nat.find_spec ever)
    refine .inl ⟨k, o, (attended.step k).decides (pending k le_rfl) settled, pending, ?_, ?_⟩
    · exact fun m => attended.quiet (pending k le_rfl)
    · exact fun m gt => (attended.later gt).settled o settled
  · have pending : ∀ n, (x n).2.outcome = none := fun n => by
      by_contra settled
      exact ever ⟨n, settled⟩
    refine .inr fun n => ⟨pending n, ?_⟩
    obtain ⟨m, after⟩ := attended.onward (x n).1
    exact attended.quiet (pending m) after

end AttendedForever

end Waiting

end EvidenceExchange
