import EvidenceExchange.Proofs.Retry.Rehearsal

namespace EvidenceExchange

/-- A retry in its surroundings at an instant. -/
structure Scene (σ φ α ε : Type) where
  now : Nat
  tokens : Tokens
  retry : Retry φ α ε
  world : σ

namespace Retry

variable {σ φ α ε : Type}

def isCalling : Retry φ α ε → Bool
  | calling _ => true
  | _ => false

def isPausing : Retry φ α ε → Bool
  | pausing _ _ => true
  | _ => false

/-- What can happen to a retry and around it. Between the end of a pause and the call of the next attempt
there is no wait, and so nothing else happens there. -/
inductive Driven (op : Operation σ φ α ε) (policy : RetryPolicy) (c : Context) (b : Scene σ φ α ε) :
    Scene σ φ α ε → Prop
  | poll {ts retry world log}
      (moved : move op policy c b.tokens b.now b.retry b.world = some (retry, world, log))
      (grows : b.tokens.cancelled ⊆ ts.cancelled) (at_once : retry.isCalling = true → ts = b.tokens) :
      Driven op policy c b ⟨b.now, ts, retry, world⟩
  | meanwhile {ts world} (apart : b.retry.isCalling = false)
      (grows : b.tokens.cancelled ⊆ ts.cancelled) :
      Driven op policy c b ⟨b.now, ts, b.retry, world⟩
  | pass {later} (lt : b.now < later) (idle : move op policy c b.tokens b.now b.retry b.world = none)
      (least : ∀ u ∈ b.retry.timers op c, b.now < u → later ≤ u) :
      Driven op policy c b { b with now := later }

/-- A run, with the time that it has spent in pauses. -/
inductive DrivenRun (op : Operation σ φ α ε) (policy : RetryPolicy) (c : Context)
    (a : Scene σ φ α ε) : Nat → Scene σ φ α ε → Prop
  | refl : DrivenRun op policy c a 0 a
  | tail {paused b d} (run : DrivenRun op policy c a paused b) (step : Driven op policy c b d) :
      DrivenRun op policy c a (paused + if b.retry.isPausing then d.now - b.now else 0) d

variable {op : Operation σ φ α ε} {policy : RetryPolicy} {c : Context}

theorem move_calling (attempt : Nat) (ts : Tokens) (now : Nat) (world : σ) :
    move op policy c ts now (calling attempt) world =
      match c.ended? ts now with
      | some cause => some (settled (.error (.ended cause)), (op.call world).2, [])
      | none => some (trying attempt (op.call world).1, (op.call world).2, []) := rfl

theorem not_calling_of_idle {ts : Tokens} {now : Nat} {retry : Retry φ α ε} {world : σ}
    (idle : move op policy c ts now retry world = none) : retry.isCalling = false := by
  cases retry with
  | calling attempt =>
    rw [move_calling] at idle
    split at idle <;> cases idle
  | trying | pausing | settled => rfl

theorem move_trying_cases {attempt : Nat} {work : φ} {ts : Tokens} {now : Nat} {world world' : σ}
    {retry' : Retry φ α ε} {log : List LogEvent}
    (moved : move op policy c ts now (trying attempt work) world = some (retry', world', log)) :
    (∃ work', retry' = trying attempt work') ∨
      (∃ e, retry' = (afterFailure op policy now attempt e).1) ∨
      (∃ a, retry' = settled (.ok a)) ∨ ∃ cause, retry' = settled (.error (.ended cause)) := by
  simp only [move] at moved
  split at moved
  next cause ended =>
    cases moved
    exact .inr (.inr (.inr ⟨cause, rfl⟩))
  next =>
    split at moved
    next => cases moved
    next work' world' _ =>
      cases moved
      exact .inl ⟨work', rfl⟩
    next a world' _ =>
      cases moved
      exact .inr (.inr (.inl ⟨a, rfl⟩))
    next e world' _ =>
      cases moved
      exact .inr (.inl ⟨e, rfl⟩)

/-- A pause ends with the context, or else at its time and with the context live. -/
theorem move_pausing_cases {attempt wake : Nat} {ts : Tokens} {now : Nat} {world world' : σ}
    {retry' : Retry φ α ε} {log : List LogEvent}
    (moved : move op policy c ts now (pausing attempt wake) world = some (retry', world', log)) :
    (c.ended? ts now = none ∧ wake ≤ now ∧ retry' = calling (attempt + 1)) ∨
      ∃ cause, retry' = settled (.error (.ended cause)) := by
  simp only [move, Context.pollDone_eq_ended?] at moved
  split at moved
  next cause ended =>
    cases moved
    exact .inr ⟨cause, rfl⟩
  next live =>
    split at moved
    next due =>
      cases moved
      exact .inl ⟨live, due, rfl⟩
    next => cases moved

end Retry

namespace Rehearsal

variable {α : Type}

def scene (b : Nat × Rehearsal α) : Scene RehearsalRecord PlannedWork α String :=
  ⟨b.1, b.2.tokens, b.2.retry, b.2.record⟩

/-- What a rehearsal keeps of the one that it has come from, with no cancel left that would come before
a call that is to be made. -/
structure Continues (r₀ : Rehearsal α) (b : Nat × Rehearsal α) : Prop where
  plan : b.2.plan = r₀.plan
  policy : b.2.policy = r₀.policy
  context : b.2.context = r₀.context
  uncancelled : b.2.retry.isCalling = true →
    TimedCancel.takeEffect? true b.1 b.2.tokens b.2.cancels = none

variable {r₀ : Rehearsal α} {b d : Nat × Rehearsal α}

theorem Continues.step (continues : r₀.Continues b) (step : clockwork.step b.1 b.2 = some d) :
    r₀.Continues d ∧
      Retry.Driven (PlannedAttempt.operation r₀.plan) r₀.policy r₀.context (scene b) (scene d) := by
  obtain ⟨now, r⟩ := b
  have ⟨plan, policy, context, uncancelled⟩ := continues
  dsimp only at plan policy context uncancelled step
  obtain ⟨-, steps⟩ := steps_of_step step
  cases steps with
  | @cancel first r' cancelled late =>
    obtain ⟨⟨tokens, left⟩, took, rfl⟩ := Option.map_eq_some_iff.mp cancelled
    have apart : r.retry.isCalling = false := by
      cases first with
      | false => exact Retry.not_calling_of_idle (late rfl)
      | true =>
        by_contra calling
        rw [uncancelled (by simpa using calling)] at took
        cases took
    obtain ⟨⟨x, left'⟩, -, same⟩ := Option.map_eq_some_iff.mp took
    cases same
    refine ⟨⟨plan, policy, context, fun calling => ?_⟩, .meanwhile apart (List.subset_cons_self ..)⟩
    cases apart.symm.trans calling
  | poll settled moved =>
    rw [plan, policy, context] at moved
    have uncancelled := Option.map_eq_none_iff.mp settled
    exact ⟨⟨plan, policy, context, fun _ => uncancelled⟩, .poll moved (List.Subset.refl _) fun _ => rfl⟩
  | wait settled idle lt least =>
    have apart := Retry.not_calling_of_idle idle
    rw [plan, policy, context] at idle
    rw [plan, context] at least
    refine ⟨⟨plan, policy, context, fun calling => ?_⟩, .pass lt idle fun u timer => ?_⟩
    · cases apart.symm.trans calling
    · exact least u (List.mem_append_left _ timer)

theorem drivenRun_of_reaches {a : Scene RehearsalRecord PlannedWork α String} {paused : Nat}
    (reaches : clockwork.Reaches b d) (continues : r₀.Continues b)
    (run : Retry.DrivenRun (PlannedAttempt.operation r₀.plan) r₀.policy r₀.context a paused (scene b)) :
    ∃ paused,
      Retry.DrivenRun (PlannedAttempt.operation r₀.plan) r₀.policy r₀.context a paused (scene d) := by
  induction reaches generalizing paused with
  | refl => exact ⟨paused, run⟩
  | step h _ ih =>
    obtain ⟨continues', driven⟩ := continues.step h
    exact ih continues' (run.tail driven)

/-- A rehearsal is a run of the operation that it plans, for as long as there is fuel. -/
theorem drivenRun_run (r : Rehearsal α) (start : Nat)
    (uncancelled : TimedCancel.takeEffect? true start r.tokens r.cancels = none) :
    ∃ paused, Retry.DrivenRun (PlannedAttempt.operation r.plan) r.policy r.context (scene (start, r))
      paused (scene (r.run start)) :=
  drivenRun_of_reaches (clockwork.reaches_run r.fuel (start, r)) ⟨rfl, rfl, rfl, fun _ => uncancelled⟩
    .refl

end Rehearsal

end EvidenceExchange
