import EvidenceExchange.Proofs.Context.Attendance
import EvidenceExchange.Proofs.Retry.Rehearsal

namespace EvidenceExchange

namespace Waiting

variable {α : Type} {now : Nat} {w w₀ : Waiting α} {a b : Nat × Waiting α}

/-- The timers after an instant. -/
def ahead (now : Nat) (w : Waiting α) : List Nat := (clockwork.timers w).filter (now < ·)

theorem timers_of_pending (pending : w.outcome = none) :
    clockwork.timers w =
      w.giveUpAt :: w.context.timers ++ (w.work.bind Work.ready).toList ++
        w.cancels.map TimedCancel.time := by
  simp [clockwork, pending]

/-- What the clock makes of a wait. -/
inductive Turn (a : Nat × Waiting α) : Nat × Waiting α → Prop
  | cancel {x left} (due : x.time ≤ a.1) (perm : a.2.cancels.Perm (x :: left)) :
      Turn a (a.1, { a.2 with tokens := a.2.tokens.cancel x.token, cancels := left })
  | poll {w'} (polled : Polled a.1 a.2 w') : Turn a (a.1, w')
  | giveUp (idle : a.2.moveWait a.1 = none) (due : a.2.giveUpAt ≤ a.1) :
      Turn a (a.1, a.2.settle .gaveUp)
  | pass {later} (idle : a.2.moveWait a.1 = none) (patient : a.1 < a.2.giveUpAt)
      (undue : ∀ x ∈ a.2.cancels, a.1 < x.time) (mem : later ∈ a.2.ahead a.1)
      (least : ∀ t ∈ a.2.ahead a.1, later ≤ t) : Turn a (later, a.2)

theorem turn_of_moveCancel {first : Bool} {w' : Waiting α} (moved : moveCancel first now w = some w') :
    Turn (now, w) (now, w') := by
  obtain ⟨⟨tokens, left⟩, took, rfl⟩ := Option.map_eq_some_iff.mp moved
  obtain ⟨⟨x, left'⟩, due, same⟩ := Option.map_eq_some_iff.mp took
  cases same
  obtain ⟨le, perm⟩ := TimedCancel.due?_eq_some due
  exact .cancel le perm

theorem undue_of_moveCancel (firstly : moveCancel true now w = none) (lastly : moveCancel false now w = none) :
    ∀ x ∈ w.cancels, now < x.time := by
  intro x mem
  by_contra due
  have undue : ∀ {first}, moveCancel first now w = none → x.first ≠ first := fun none same =>
    TimedCancel.due?_eq_none.mp (Option.map_eq_none_iff.mp (Option.map_eq_none_iff.mp none)) x mem
      ⟨same, Nat.le_of_not_lt due⟩
  cases first : x.first with
  | true => exact undue firstly first
  | false => exact undue lastly first

theorem exists_turn (pending : a.2.outcome = none) : ∃ b, clockwork.step a.1 a.2 = some b ∧ Turn a b := by
  obtain ⟨now, w⟩ := a
  replace pending : w.outcome = none := pending
  unfold Clockwork.step
  cases moves : clockwork.move now w with
  | some w' =>
    refine ⟨(now, w'), rfl, ?_⟩
    simp only [clockwork, pending, Option.isSome_none, Bool.false_eq_true, if_false,
      Option.orElse_eq_orElse, Option.orElse_eq_or] at moves
    obtain cancelled | ⟨-, moved | ⟨idle, gave | ⟨-, cancelled⟩⟩⟩ := by
      simpa only [Option.or_eq_some_iff] using moves
    · exact turn_of_moveCancel cancelled
    · exact .poll (polled_of_moveWait moved)
    · rw [giveUp] at gave
      split at gave
      next due =>
        cases gave
        exact .giveUp idle due
      next => cases gave
    · exact turn_of_moveCancel cancelled
  | none =>
    simp only [clockwork, pending, Option.isSome_none, Bool.false_eq_true, if_false,
      Option.orElse_eq_orElse, Option.orElse_eq_or, Option.or_eq_none_iff] at moves
    obtain ⟨firstly, idle, patient, lastly⟩ := moves
    replace patient : now < w.giveUpAt := by
      rw [giveUp] at patient
      split at patient
      next => cases patient
      next early => exact Nat.lt_of_not_le early
    have some : w.giveUpAt ∈ w.ahead now := by
      rw [ahead, timers_of_pending pending]
      exact List.mem_filter.mpr ⟨List.mem_cons_self .., decide_eq_true patient⟩
    cases next : Clockwork.nextTimer now (clockwork.timers w) with
    | none => exact absurd (List.min?_eq_none_iff.mp next) (List.ne_nil_of_mem some)
    | some later =>
      obtain ⟨mem, least⟩ := List.min?_eq_some_iff.mp next
      exact ⟨(later, w), rfl, .pass idle patient (undue_of_moveCancel firstly lastly) mem least⟩

/-- A bound on the steps that are left. -/
def left (a : Nat × Waiting α) : Nat :=
  if a.2.outcome.isSome then 0
  else
    a.2.cancels.length + (a.2.ahead a.1).length + (if a.2.work.isSome && !a.2.polled then 1 else 0) + 1

theorem left_of_pending (pending : a.2.outcome = none) :
    left a = a.2.cancels.length + (a.2.ahead a.1).length +
      (if a.2.work.isSome && !a.2.polled then 1 else 0) + 1 := by
  simp [left, pending]

theorem Turn.left_lt (turn : Turn a b) (pending : a.2.outcome = none) : left b < left a := by
  have positive : 0 < left a := by
    rw [left_of_pending pending]
    omega
  cases turn with
  | @cancel x rest due perm =>
    have fewer : a.2.cancels.length = rest.length + 1 := perm.length_eq
    have same : (ahead a.1 { a.2 with tokens := a.2.tokens.cancel x.token, cancels := rest }).length =
        (a.2.ahead a.1).length := by
      have past : ¬a.1 < x.time := Nat.not_lt.mpr due
      have filtered := ((perm.map TimedCancel.time).filter (a.1 < ·)).length_eq
      rw [List.map_cons, List.filter_cons_of_neg (by simpa using past)] at filtered
      simp only [ahead, timers_of_pending pending, timers_of_pending (w := { a.2 with
        tokens := a.2.tokens.cancel x.token, cancels := rest }) pending, List.filter_append,
        List.length_append, filtered]
    rw [left_of_pending pending, left_of_pending (by exact pending), same]
    dsimp only
    omega
  | poll polled =>
    cases polled with
    | ended | finished => exact positive
    | begun live works unready first =>
      have same : ahead a.1 { a.2 with polled := true } = a.2.ahead a.1 := rfl
      rw [left_of_pending pending, left_of_pending (by exact pending), same]
      simp only [works, first, Option.isSome_some, Bool.not_true, Bool.and_false, Bool.not_false,
        Bool.and_true, Bool.false_eq_true, if_true, if_false]
      omega
  | giveUp => exact positive
  | @pass later _ _ _ mem _ =>
    have shorter : (a.2.ahead later).length < (a.2.ahead a.1).length := by
      have after : a.1 < later := by simpa using (List.mem_filter.mp mem).2
      have again : a.2.ahead later = (a.2.ahead a.1).filter (later < ·) := by
        rw [ahead, ahead, List.filter_filter]
        refine List.filter_congr fun t _ => ?_
        rw [Bool.eq_iff_iff, Bool.and_eq_true, decide_eq_true_iff, decide_eq_true_iff]
        omega
      rw [again, List.length_filter_lt_length_iff_exists]
      exact ⟨later, mem, by simp⟩
    rw [left_of_pending pending, left_of_pending (by exact pending)]
    dsimp only
    omega

theorem left_le_fuel (now : Nat) (w : Waiting α) : left (now, w) ≤ w.fuel := by
  cases pending : w.outcome with
  | some => simp [left, pending]
  | none =>
    have timers : (w.ahead now).length ≤ w.cancels.length + 3 := by
      have limit : w.context.timers.length ≤ 1 := by
        rw [Context.timers, List.length_map]
        exact Option.length_toList_le
      have ready : (w.work.bind Work.ready).toList.length ≤ 1 := Option.length_toList_le
      refine (List.length_filter_le ..).trans ?_
      simp only [timers_of_pending pending, List.length_cons, List.length_append, List.length_map]
      omega
    rw [left_of_pending (by exact pending), fuel]
    dsimp only
    split <;> omega

/-- A wait does not run out of fuel before it has settled. -/
theorem settled_of_fuel {fuel : Nat} (enough : left a ≤ fuel) :
    (clockwork.run fuel a).2.outcome.isSome := by
  induction fuel generalizing a with
  | zero =>
    cases pending : a.2.outcome with
    | some => simp [Clockwork.run, pending]
    | none =>
      rw [left_of_pending pending] at enough
      omega
  | succ fuel ih =>
    cases pending : a.2.outcome with
    | some =>
      have still : clockwork.step a.1 a.2 = none := by
        simp [Clockwork.step, clockwork, pending, Clockwork.nextTimer]
      simp [Clockwork.run, still, pending]
    | none =>
      obtain ⟨b, step, turn⟩ := exists_turn pending
      have := turn.left_lt pending
      rw [Clockwork.run, step]
      exact ih (by omega)

/-- How a wait has come along from an instant on. Its work and its context are those that it had, and so
are its cancels, of which some have taken effect. Nothing that it waits for was there at an instant that
is over, and nobody gave it up then. -/
structure Since (start : Nat) (w₀ : Waiting α) (b : Nat × Waiting α) : Prop where
  time : start ≤ b.1
  context : b.2.context = w₀.context
  work : b.2.work = w₀.work
  giveUpAt : b.2.giveUpAt = w₀.giveUpAt
  tokens : ∀ u, b.1 ≤ u →
    (TimedCancel.tokensAt b.2.tokens b.2.cancels u).SameAs (TimedCancel.tokensAt w₀.tokens w₀.cancels u)
  quiet : ∀ u, start ≤ u → u < b.1 →
    w₀.context.LiveAt (TimedCancel.schedule w₀.tokens w₀.cancels) u ∧ ¬Ready (u, w₀) ∧ u < w₀.giveUpAt

variable {start : Nat}

theorem Since.refl (start : Nat) (w₀ : Waiting α) : Since start w₀ (start, w₀) :=
  ⟨le_rfl, rfl, rfl, rfl, fun _ _ _ => Iff.rfl, fun u after before => by dsimp only at before; omega⟩

/-- The clock passes over no instant at which there is something to settle a wait. -/
theorem Since.pass {later : Nat} (since : Since start w₀ a) (pending : a.2.outcome = none)
    (idle : a.2.moveWait a.1 = none) (patient : a.1 < a.2.giveUpAt)
    (undue : ∀ x ∈ a.2.cancels, a.1 < x.time) (mem : later ∈ a.2.ahead a.1)
    (least : ∀ t ∈ a.2.ahead a.1, later ≤ t) : Since start w₀ (later, a.2) := by
  have after : a.1 < later := by simpa using (List.mem_filter.mp mem).2
  replace least : ∀ t ∈ clockwork.timers a.2, a.1 < t → later ≤ t := fun t timer lt =>
    least t (List.mem_filter.mpr ⟨timer, decide_eq_true lt⟩)
  simp only [timers_of_pending pending, List.mem_cons, List.cons_append, List.mem_append] at least
  obtain ⟨live, unready, -⟩ := idle_of_moveWait idle
  refine ⟨since.time.trans after.le, since.context, since.work, since.giveUpAt,
    fun u after' => since.tokens u (after.le.trans after'), fun u begun before => ?_⟩
  by_cases past : u < a.1
  · exact since.quiet u begun past
  replace past := Nat.le_of_not_lt past
  have still : a.2.tokens.SameAs (TimedCancel.tokensAt w₀.tokens w₀.cancels u) := fun i => by
    rw [← since.tokens u past i]
    refine TimedCancel.sameAs_tokensAt (fun x mem => ?_) i
    exact before.trans_le (least x.time (.inr (.inr (List.mem_map_of_mem mem))) (undue x mem))
  refine ⟨?_, ?_, ?_⟩
  · have live := Context.ended?_of_timers live (u := u) fun t timer lt =>
      before.trans_le (least t (.inr (.inl (.inl timer))) lt)
    rw [Context.ended?_congr still, since.context] at live
    exact live
  · rintro ⟨work, ready, works, due, le⟩
    have ahead : a.1 < ready := by
      by_contra le
      exact unready ⟨work, ready, since.work.trans works, due, Nat.le_of_not_lt le⟩
    have timer : ready ∈ (a.2.work.bind Work.ready).toList := by
      simp [show a.2.work = some work from since.work.trans works, due]
    have := least ready (.inr (.inl (.inr timer))) ahead
    dsimp only at le
    omega
  · rw [← since.giveUpAt]
    exact before.trans_le (least _ (.inl rfl) patient)

/-- A settled wait has been given up, or has come to what it waits for. -/
def Settled (b : Nat × Waiting α) : Prop :=
  ∀ o, b.2.outcome = some o →
    Decides b o ∨ o = .gaveUp ∧ shown b = none ∧ ¬Ready b ∧ b.2.giveUpAt ≤ b.1

theorem Since.turn (since : Since start w₀ a) (pending : a.2.outcome = none) (turn : Turn a b) :
    Since start w₀ b ∧ Settled b := by
  cases turn with
  | cancel due perm =>
    refine ⟨{ since with tokens := fun u after i => ?_ }, fun o settled => ?_⟩
    · rw [← since.tokens u after i]
      exact TimedCancel.tokensAt_cancel (due.trans after) perm i
    · cases pending.symm.trans settled
  | poll polled =>
    cases polled with
    | ended ended =>
      refine ⟨{ since with }, fun o settled => .inl ?_⟩
      cases settled
      exact .ended ended
    | finished live works ready =>
      refine ⟨{ since with }, fun o settled => .inl ?_⟩
      cases settled
      exact .finished live works ready
    | begun => exact ⟨{ since with }, fun o settled => by cases pending.symm.trans settled⟩
  | giveUp idle due =>
    obtain ⟨live, unready, -⟩ := idle_of_moveWait idle
    refine ⟨{ since with }, fun o settled => .inr ?_⟩
    cases settled
    exact ⟨rfl, live, unready, due⟩
  | pass idle patient undue mem least =>
    exact ⟨since.pass pending idle patient undue mem least,
      fun o settled => by cases pending.symm.trans settled⟩

theorem Since.reaches (since : Since start w₀ a) (settled : Settled a) (reaches : clockwork.Reaches a b) :
    Since start w₀ b ∧ Settled b := by
  induction reaches with
  | refl => exact ⟨since, settled⟩
  | @step a b _ step _ ih =>
    cases pending : a.2.outcome with
    | some => simp [Clockwork.step, clockwork, pending, Clockwork.nextTimer] at step
    | none =>
      obtain ⟨b', step', turn⟩ := exists_turn pending
      obtain rfl := Option.some.inj (step.symm.trans step')
      obtain ⟨since, settled⟩ := since.turn pending turn
      exact ih since settled

/-- A wait that is left to its clock settles: when its context has ended, when its work is ready under a
context that has not, or else when it is given up, and at the first such instant. -/
theorem run_settles (start : Nat) (fresh : w.outcome = none) :
    ∃ o, (w.run start).2.outcome = some o ∧ Since start w (w.run start) ∧
      (Decides (w.run start) o ∨ o = .gaveUp ∧ shown (w.run start) = none ∧ ¬Ready (w.run start) ∧
        w.giveUpAt ≤ (w.run start).1) := by
  obtain ⟨o, settled⟩ := Option.isSome_iff_exists.mp (settled_of_fuel (left_le_fuel start w))
  have unsettled : Settled (start, w) := fun o settled => by cases fresh.symm.trans settled
  obtain ⟨since, settles⟩ := (Since.refl start w).reaches unsettled (clockwork.reaches_run w.fuel (start, w))
  refine ⟨o, settled, since, ?_⟩
  have decided := settles o settled
  rw [since.giveUpAt] at decided
  exact decided

end Waiting

end EvidenceExchange
