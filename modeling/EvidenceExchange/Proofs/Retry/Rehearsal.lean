import EvidenceExchange.Proofs.Retry.Attended

namespace EvidenceExchange

namespace TimedCancel

variable {ts : Tokens} {cancels left : List TimedCancel} {x : TimedCancel} {first : Bool} {now u : Nat}

/-- The tokens after all cancels that are due by an instant. -/
def tokensAt (ts : Tokens) (cancels : List TimedCancel) (now : Nat) : Tokens :=
  { ts with cancelled := (cancels.filter (·.time ≤ now)).map (·.token.id) ++ ts.cancelled }

theorem mem_tokensAt {i : Nat} : i ∈ (tokensAt ts cancels now).cancelled ↔
    (∃ x ∈ cancels, x.time ≤ now ∧ x.token.id = i) ∨ i ∈ ts.cancelled := by
  simp [tokensAt, and_assoc]

def schedule (ts : Tokens) (cancels : List TimedCancel) : Schedule where
  tokens := tokensAt ts cancels
  grows u v le i := by
    rw [mem_tokensAt, mem_tokensAt]
    exact Or.imp_left fun ⟨x, mem, due, id⟩ => ⟨x, mem, due.trans le, id⟩

theorem due?_eq_some (due : due? first now cancels = some (x, left)) :
    x.time ≤ now ∧ cancels.Perm (x :: left) := by
  induction cancels generalizing left with
  | nil => cases due
  | cons y rest ih =>
    rw [due?] at due
    split at due
    next here =>
      cases due
      exact ⟨here.2, .refl _⟩
    next =>
      obtain ⟨⟨x', left'⟩, found, same⟩ := Option.map_eq_some_iff.mp due
      cases same
      obtain ⟨le, perm⟩ := ih found
      exact ⟨le, (perm.cons y).trans (.swap ..)⟩

theorem due?_eq_none : due? first now cancels = none ↔
    ∀ x ∈ cancels, ¬(x.first = first ∧ x.time ≤ now) := by
  induction cancels with
  | nil => simp [due?]
  | cons y rest ih =>
    rw [due?]
    split
    next here => simp [here]
    next away => rw [Option.map_eq_none_iff, ih, List.forall_mem_cons, and_iff_right away]

end TimedCancel

/-- The same tokens are cancelled. -/
def Tokens.SameAs (ts ts' : Tokens) : Prop := ∀ i, i ∈ ts.cancelled ↔ i ∈ ts'.cancelled

/-- A cancel that takes effect is due from then on. -/
theorem TimedCancel.tokensAt_cancel {ts : Tokens} {cancels left : List TimedCancel} {x : TimedCancel}
    {u : Nat} (due : x.time ≤ u) (perm : cancels.Perm (x :: left)) :
    (tokensAt (ts.cancel x.token) left u).SameAs (tokensAt ts cancels u) := by
  intro i
  simp only [mem_tokensAt, Tokens.cancel, perm.mem_iff, List.mem_cons, exists_eq_or_imp, due, true_and]
  rw [eq_comm (a := i), or_left_comm, or_assoc]

theorem TimedCancel.sameAs_tokensAt {ts : Tokens} {cancels : List TimedCancel} {u : Nat}
    (undue : ∀ x ∈ cancels, u < x.time) : ts.SameAs (tokensAt ts cancels u) := by
  intro i
  rw [mem_tokensAt]
  refine ⟨.inr, Or.rec (fun ⟨x, mem, due, _⟩ => ?_) id⟩
  exact absurd due (Nat.not_le.mpr (undue x mem))

theorem Context.ended?_congr {ts ts' : Tokens} (same : ts.SameAs ts') (c : Context) (now : Nat) :
    c.ended? ts now = c.ended? ts' now := by
  have alike : ts.isCancelled c.token = ts'.isCancelled c.token := by
    rw [Bool.eq_iff_iff]
    exact ⟨Tokens.isCancelled_of_subset fun i => (same i).mp,
      Tokens.isCancelled_of_subset fun i => (same i).mpr⟩
  rw [ended?, alike, ended?]

theorem Retry.move_congr {σ φ α ε : Type} {op : Operation σ φ α ε} {policy : RetryPolicy} {c : Context}
    {ts ts' : Tokens} (same : ts.SameAs ts') (now : Nat) (retry : Retry φ α ε) (world : σ) :
    move op policy c ts now retry world = move op policy c ts' now retry world := by
  unfold move
  simp only [Context.pollDone_eq_ended?, Context.ended?_congr same]

/-- A context ends only with a cancel or at one of its timers. -/
theorem Context.ended?_of_timers {c : Context} {ts : Tokens} {now u : Nat}
    (live : c.ended? ts now = none) (untimed : ∀ v ∈ c.timers, now < v → u < v) :
    c.ended? ts u = none := by
  rw [← pollDone_eq_ended?] at live ⊢
  unfold pollDone at live ⊢
  cases limit : c.deadline with
  | none =>
    rw [limit] at live
    exact live
  | some d =>
    rw [limit] at live
    dsimp only at live ⊢
    split at live
    next => cases live
    next uncancelled =>
      split at live
      next => cases live
      next early =>
        have ahead : now < d.tick := by simpa [timerFired] using early
        have later := untimed d.tick (by simp [timers, limit]) ahead
        rw [if_neg uncancelled, if_neg (by simpa [timerFired] using later)]

/-- A retry that waits has not seen the end of its context, and its timers are those of the context
among others. -/
theorem Retry.waits_of_idle {σ φ α ε : Type} {op : Operation σ φ α ε} {policy : RetryPolicy}
    {c : Context} {ts : Tokens} {now : Nat} {retry : Retry φ α ε} {world : σ}
    (live : retry.isOver = false) (idle : move op policy c ts now retry world = none) :
    c.ended? ts now = none ∧ c.timers ⊆ retry.timers op c := by
  cases retry with
  | calling =>
    simp only [move] at idle
    split at idle <;> cases idle
  | trying =>
    simp only [move, Context.pollDone_eq_ended?] at idle
    split at idle
    next => cases idle
    next pending => exact ⟨pending, List.subset_append_left ..⟩
  | pausing =>
    simp only [move, Context.pollDone_eq_ended?] at idle
    split at idle
    next => cases idle
    next pending => exact ⟨pending, List.subset_cons_self ..⟩
  | settled => cases live

namespace PlannedAttempt

variable {α : Type} {plan : List (PlannedAttempt α)}

theorem nth_mem (planned : plan ≠ []) (index : Nat) : ∃ a ∈ plan, nth plan index = some a := by
  have inside : min index (plan.length - 1) < plan.length := by
    have := List.length_pos_iff.mpr planned
    omega
  exact ⟨_, List.getElem_mem inside, List.getElem?_eq_getElem inside⟩

end PlannedAttempt

namespace Rehearsal

variable {α : Type}

/-- The timetable of a rehearsal in which every attempt comes to an end. -/
def timetable (r : Rehearsal α) (start : Nat) : Timetable α String where
  policy := r.policy
  start := start
  takes j := (((PlannedAttempt.nth r.plan j).bind PlannedAttempt.after).map Duration.ticks).getD 0
  gives j := ((PlannedAttempt.nth r.plan j).map PlannedAttempt.outcome).getD (.error "")
  describe := id

theorem takes_timetable {r : Rehearsal α} {j : Nat} {a : PlannedAttempt α}
    (found : PlannedAttempt.nth r.plan j = some a) (start : Nat) :
    (r.timetable start).takes j = (a.after.map Duration.ticks).getD 0 := by
  simp only [timetable, found, Option.bind_some]

theorem gives_timetable {r : Rehearsal α} {j : Nat} {a : PlannedAttempt α}
    (found : PlannedAttempt.nth r.plan j = some a) (start : Nat) :
    (r.timetable start).gives j = a.outcome := by
  simp only [timetable, found, Option.map_some, Option.getD_some]

theorem readyAt_timetable {r : Rehearsal α} {j : Nat} {a : PlannedAttempt α}
    (found : PlannedAttempt.nth r.plan j = some a) (ends : a.hangs = false) (start now : Nat) :
    PlannedAttempt.readyAt r.plan j now = some (now + (r.timetable start).takes j) := by
  have ready : (a.after.map fun d => ((Instant.ofMillis now).afterWait d).tick).getD now =
      now + (a.after.map Duration.ticks).getD 0 := by
    cases a.after with
    | none => rfl
    | some d => rw [Option.map_some, Option.getD_some, d.tick_afterWait, Option.map_some, Option.getD_some]
  rw [PlannedAttempt.readyAt, found, takes_timetable found start, ← ready]
  exact if_neg (Bool.eq_false_iff.mp ends)

theorem operation_timetable {r : Rehearsal α} (planned : r.plan ≠ [])
    (ends : ∀ a ∈ r.plan, a.hangs = false) (start : Nat) :
    (r.timetable start).operation = PlannedAttempt.operation r.plan := by
  have poll : (r.timetable start).operation.poll = PlannedAttempt.poll r.plan := by
    funext now work record
    cases work with
    | called j =>
      obtain ⟨a, mem, found⟩ := PlannedAttempt.nth_mem planned j
      rw [PlannedAttempt.poll, readyAt_timetable found (ends a mem) start, Timetable.operation]
    | running j ready =>
      obtain ⟨a, mem, found⟩ := PlannedAttempt.nth_mem planned j
      cases ready with
      | none => rfl
      | some t =>
        simp only [Timetable.operation, PlannedAttempt.poll, found, gives_timetable found start,
          Option.any_some, decide_eq_true_eq]
  rw [PlannedAttempt.operation, ← poll]
  rfl

/-- What the clock makes of a rehearsal at an instant: a cancel takes effect, the late ones once nothing
else can be done, or its retry is polled, or the next of its timers is reached. -/
inductive Steps (r : Rehearsal α) (now : Nat) : Nat × Rehearsal α → Prop
  | cancel {first r'} (cancelled : r.moveCancel first now = some r')
      (late : first = false →
        r.retry.move (PlannedAttempt.operation r.plan) r.policy r.context r.tokens now r.record = none) :
      Steps r now (now, r')
  | poll {retry record log} (settled : r.moveCancel true now = none)
      (moved : r.retry.move (PlannedAttempt.operation r.plan) r.policy r.context r.tokens now r.record =
        some (retry, record, log)) :
      Steps r now (now, { r with retry := retry, record := record, log := r.log ++ log })
  | wait {later} (settled : r.moveCancel true now = none)
      (idle : r.retry.move (PlannedAttempt.operation r.plan) r.policy r.context r.tokens now r.record =
        none)
      (lt : now < later)
      (least : ∀ u ∈ r.retry.timers (PlannedAttempt.operation r.plan) r.context ++
        r.cancels.map TimedCancel.time, now < u → later ≤ u) :
      Steps r now (later, r)

/-- Only a retry that has not settled gets the clock to do anything. -/
theorem steps_of_step {r : Rehearsal α} {now : Nat} {b : Nat × Rehearsal α}
    (step : clockwork.step now r = some b) : r.retry.isOver = false ∧ r.Steps now b := by
  have live : r.retry.isOver = false := by
    by_contra settled
    rw [Bool.not_eq_false] at settled
    simp [Clockwork.step, clockwork, settled, Clockwork.nextTimer] at step
  refine ⟨live, ?_⟩
  unfold Clockwork.step at step
  simp only [clockwork, live, Bool.false_eq_true, if_false, Option.orElse_eq_orElse,
    Option.orElse_eq_or] at step
  split at step
  next r' moves =>
    cases step
    obtain cancelled | ⟨settled, moved | ⟨idle, cancelled⟩⟩ := by
      simpa only [Option.or_eq_some_iff] using moves
    · exact .cancel cancelled fun late => by cases late
    · obtain ⟨⟨retry, record, log⟩, polled, rfl⟩ := Option.map_eq_some_iff.mp moved
      exact .poll settled polled
    · exact .cancel cancelled fun _ => Option.map_eq_none_iff.mp idle
  next still =>
    obtain ⟨later, next, rfl⟩ := Option.map_eq_some_iff.mp step
    simp only [Option.or_eq_none_iff] at still
    obtain ⟨passes, -, least⟩ := Clockwork.nextTimer_eq_some_iff.mp next
    exact .wait still.1 (Option.map_eq_none_iff.mp still.2.1) passes least

/-- A rehearsal that has come from another: its plan is the same, and the cancels that have taken effect
and those that are left are those of the other. -/
structure Follows (r₀ r : Rehearsal α) (now : Nat) : Prop where
  plan : r.plan = r₀.plan
  policy : r.policy = r₀.policy
  context : r.context = r₀.context
  firstly : ∀ x ∈ r.cancels, x.first = true
  tokens : ∀ u, now ≤ u →
    (TimedCancel.tokensAt r.tokens r.cancels u).SameAs (TimedCancel.tokensAt r₀.tokens r₀.cancels u)

variable {r₀ r r' : Rehearsal α} {now later : Nat}

/-- A cancel changes no token but its own, and nothing of the retry. -/
theorem Follows.cancel (follows : r₀.Follows r now) {first : Bool}
    (cancelled : r.moveCancel first now = some r') :
    r₀.Follows r' now ∧ r'.retry = r.retry ∧ r'.record = r.record := by
  obtain ⟨⟨tokens, left⟩, took, rfl⟩ := Option.map_eq_some_iff.mp cancelled
  obtain ⟨⟨x, left'⟩, due, same⟩ := Option.map_eq_some_iff.mp took
  cases same
  obtain ⟨le, perm⟩ := TimedCancel.due?_eq_some due
  refine ⟨⟨follows.plan, follows.policy, follows.context, fun y mem => ?_, fun u after i => ?_⟩, rfl, rfl⟩
  · exact follows.firstly y (perm.mem_iff.mpr (List.mem_cons_of_mem _ mem))
  · rw [← follows.tokens u after i]
    exact TimedCancel.tokensAt_cancel (le.trans after) perm i

theorem Follows.same (follows : r₀.Follows r now) (settled : r.moveCancel true now = none) {u : Nat}
    (after : now ≤ u) (before : ∀ x ∈ r.cancels, now < x.time → u < x.time) :
    r.tokens.SameAs (TimedCancel.tokensAt r₀.tokens r₀.cancels u) := by
  intro i
  rw [← follows.tokens u after i]
  refine TimedCancel.sameAs_tokensAt (fun x mem => ?_) i
  have undue := TimedCancel.due?_eq_none.mp (Option.map_eq_none_iff.mp (Option.map_eq_none_iff.mp settled))
  exact before x mem (Nat.lt_of_not_le fun le => undue x mem ⟨follows.firstly x mem, le⟩)

/-- The clock does not pass over a timer of the retry, nor over a cancel. -/
theorem Follows.wait (follows : r₀.Follows r now) (live : r.retry.isOver = false)
    (settled : r.moveCancel true now = none)
    (idle : r.retry.move (PlannedAttempt.operation r.plan) r.policy r.context r.tokens now r.record = none)
    (passes : now < later)
    (least : ∀ u ∈ r.retry.timers (PlannedAttempt.operation r.plan) r.context ++
      r.cancels.map TimedCancel.time, now < u → later ≤ u) :
    Retry.Attended (PlannedAttempt.operation r₀.plan) r₀.policy r₀.context
      (TimedCancel.schedule r₀.tokens r₀.cancels).tokens (now, r.retry, r.record)
      (later, r.retry, r.record) := by
  obtain ⟨pending, within⟩ := Retry.waits_of_idle live idle
  have same : ∀ u, now ≤ u → u < later →
      r.tokens.SameAs (TimedCancel.tokensAt r₀.tokens r₀.cancels u) := fun u after before =>
    follows.same settled after fun x mem ahead =>
      before.trans_le (least _ (List.mem_append_right _ (List.mem_map_of_mem mem)) ahead)
  rw [follows.plan, follows.policy, follows.context,
    Retry.move_congr (same now le_rfl passes)] at idle
  refine .wait passes live idle fun u after before => ⟨fun timer => ?_, ?_⟩
  · rw [← follows.plan, ← follows.context] at timer
    have := least u (List.mem_append_left _ timer) after
    omega
  · rw [← follows.context]
    have ended := Context.ended?_of_timers pending (u := u) fun v timer ahead =>
      before.trans_le (least v (List.mem_append_left _ (within timer)) ahead)
    exact (Context.ended?_congr (same u after.le before) _ _).symm.trans ended

theorem Follows.step (follows : r₀.Follows r now) {b : Nat × Rehearsal α}
    (step : clockwork.step now r = some b) :
    r₀.Follows b.2 b.1 ∧
      (b.1 = now ∧ b.2.retry = r.retry ∧ b.2.record = r.record ∨
        Retry.Attended (PlannedAttempt.operation r₀.plan) r₀.policy r₀.context
          (TimedCancel.schedule r₀.tokens r₀.cancels).tokens
          (now, r.retry, r.record) (b.1, b.2.retry, b.2.record)) := by
  obtain ⟨live, steps⟩ := steps_of_step step
  cases steps with
  | cancel cancelled =>
    obtain ⟨follows', retry, record⟩ := follows.cancel cancelled
    exact ⟨follows', .inl ⟨rfl, retry, record⟩⟩
  | poll settled polled =>
    have here := follows.same settled le_rfl fun x _ ahead => ahead
    rw [follows.plan, follows.policy, follows.context, Retry.move_congr here] at polled
    exact ⟨{ follows with }, .inr (.poll polled)⟩
  | wait settled idle passes least =>
    exact ⟨{ follows with tokens := fun u after => follows.tokens u (passes.le.trans after) },
      .inr (follows.wait live settled idle passes least)⟩

theorem Follows.refl (firstly : ∀ x ∈ r₀.cancels, x.first = true) (now : Nat) : r₀.Follows r₀ now :=
  ⟨rfl, rfl, rfl, firstly, fun _ _ _ => Iff.rfl⟩

theorem run_of_reaches (planned : r₀.plan ≠ []) (ends : ∀ a ∈ r₀.plan, a.hangs = false) {start : Nat}
    {b d : Nat × Rehearsal α} (reaches : clockwork.Reaches b d) (follows : r₀.Follows b.2 b.1)
    {steps : Nat} (run : (r₀.timetable start).Run r₀.context (TimedCancel.schedule r₀.tokens r₀.cancels)
      steps (b.1, b.2.retry, b.2.record)) :
    ∃ steps, (r₀.timetable start).Run r₀.context (TimedCancel.schedule r₀.tokens r₀.cancels) steps
      (d.1, d.2.retry, d.2.record) := by
  induction reaches generalizing steps with
  | refl => exact ⟨steps, run⟩
  | step h _ ih =>
    obtain ⟨follows', ⟨now, retry, record⟩ | attended⟩ := follows.step h
    · rw [← now, ← retry, ← record] at run
      exact ih follows' run
    · rw [← operation_timetable planned ends start] at attended
      exact ih follows' (run.tail attended)

/-- A rehearsal is a run of its timetable, for as long as there is fuel. -/
theorem run_timetable (planned : r₀.plan ≠ []) (ends : ∀ a ∈ r₀.plan, a.hangs = false)
    (firstly : ∀ x ∈ r₀.cancels, x.first = true) (isNew : r₀.retry = .start)
    (blank : r₀.record = ⟨0, []⟩) (start : Nat) :
    ∃ steps, (r₀.timetable start).Run r₀.context (TimedCancel.schedule r₀.tokens r₀.cancels) steps
      ((r₀.run start).1, (r₀.run start).2.retry, (r₀.run start).2.record) := by
  have reaches := clockwork.reaches_run r₀.fuel (start, r₀)
  have first : (r₀.timetable start).Run r₀.context (TimedCancel.schedule r₀.tokens r₀.cancels) 0
      (start, r₀.retry, r₀.record) := by
    rw [isNew, blank]
    exact .refl
  exact run_of_reaches planned ends reaches (.refl firstly start) first

end Rehearsal

end EvidenceExchange
