import EvidenceExchange.Proofs.Retry.Driven

namespace EvidenceExchange.Retry

variable {σ φ α ε : Type} {op : Operation σ φ α ε} {policy : RetryPolicy} {c : Context}
  {b d : Scene σ φ α ε} {attempt : Nat} {cause : Cancellation}

theorem Driven.live_of_calling (step : Driven op policy c b d) (calls : d.retry = .calling attempt) :
    c.ended? d.tokens d.now = none := by
  cases step with
  | @poll ts retry world log moved grows at_once =>
    obtain rfl : retry = .calling attempt := calls
    obtain rfl : ts = b.tokens := at_once rfl
    cases stands : b.retry with
    | calling m =>
      rw [stands, move_calling] at moved
      split at moved <;> cases moved
    | trying m work =>
      rw [stands] at moved
      rcases move_trying_cases moved with ⟨_, h⟩ | ⟨e, h⟩ | ⟨_, h⟩ | ⟨_, h⟩
      · cases h
      · simp only [afterFailure] at h
        split at h <;> cases h
      · cases h
      · cases h
    | pausing m wake =>
      rw [stands] at moved
      rcases move_pausing_cases moved with ⟨live, -, -⟩ | ⟨_, h⟩
      · exact live
      · cases h
    | settled =>
      rw [stands] at moved
      cases moved
  | meanwhile apart =>
    rw [show b.retry = .calling attempt from calls] at apart
    cases apart
  | pass lt idle =>
    have apart := not_calling_of_idle idle
    rw [show b.retry = .calling attempt from calls] at apart
    cases apart

theorem Driven.of_settled {result : Except (RetryError ε) α} (step : Driven op policy c b d)
    (isOver : b.retry = .settled result) : d.retry = .settled result := by
  cases step with
  | poll moved =>
    rw [isOver] at moved
    cases moved
  | meanwhile | pass => exact isOver

/-- A call on a context that has ended is the only step there is, and the end of the retry. -/
theorem Driven.of_calling (step : Driven op policy c b d) (calls : b.retry = .calling attempt)
    (ended : c.ended? b.tokens b.now = some cause) :
    d.retry = .settled (.error (.ended cause)) := by
  cases step with
  | poll moved =>
    rw [calls, move_calling, ended] at moved
    cases moved
    rfl
  | meanwhile apart =>
    rw [calls] at apart
    cases apart
  | pass lt idle =>
    rw [calls, move_calling, ended] at idle
    cases idle

variable {a : Scene σ φ α ε} {paused : Nat}

theorem DrivenRun.first_or_live (run : DrivenRun op policy c a paused b)
    (calls : b.retry = .calling attempt) : b = a ∨ c.ended? b.tokens b.now = none := by
  cases run with
  | refl => exact .inl rfl
  | tail _ step => exact .inr (step.live_of_calling calls)

theorem DrivenRun.of_ended (run : DrivenRun op policy c a paused b) (calls : a.retry = .calling attempt)
    (ended : c.ended? a.tokens a.now = some cause) :
    b = a ∨ b.retry = .settled (.error (.ended cause)) := by
  induction run with
  | refl => exact .inl rfl
  | tail _ step ih =>
    rcases ih with rfl | isOver
    · exact .inr (step.of_calling calls ended)
    · exact .inr (step.of_settled isOver)

/-- The calls of a retry, whatever its operation does and whenever its context ends. They are all made on
a live context if and only if the context is live at the start, since a call that is not the first one
always is. On a context that has ended before, the operation is called once; what it gives is never
polled, and the retry ends with the context. Whether the context has ended is asked at whole milliseconds
of the clock that the timers run on. -/
theorem calls_on_live_context_iff (op : Operation σ φ α ε) (policy : RetryPolicy) (c : Context)
    (now : Nat) (ts : Tokens) (world : σ) :
    ((∀ paused b attempt, DrivenRun op policy c ⟨now, ts, .start, world⟩ paused b →
        b.retry = .calling attempt → c.ended? b.tokens b.now = none) ↔ c.ended? ts now = none) ∧
      (∀ paused b attempt, DrivenRun op policy c ⟨now, ts, .start, world⟩ paused b →
        b.retry = .calling attempt → b = ⟨now, ts, .start, world⟩ ∨ c.ended? b.tokens b.now = none) ∧
      ∀ cause, c.ended? ts now = some cause →
        move op policy c ts now .start world =
            some (.settled (.error (.ended cause)), (op.call world).2, []) ∧
          ∀ paused b, DrivenRun op policy c ⟨now, ts, .start, world⟩ paused b →
            b = ⟨now, ts, .start, world⟩ ∨ b.retry = .settled (.error (.ended cause)) := by
  refine ⟨⟨fun guarded => ?_, fun live paused b attempt run calls => ?_⟩, ?_, fun cause ended => ⟨?_, ?_⟩⟩
  · exact guarded 0 _ 1 .refl rfl
  · rcases run.first_or_live calls with rfl | here
    · exact live
    · exact here
  · intro paused b attempt run calls
    exact run.first_or_live calls
  · rw [start, move_calling, ended]
  · intro paused b run
    exact run.of_ended (show Retry.start = calling 1 from rfl) ended

/-- The operation is called on a context that has been cancelled before. -/
theorem call_on_cancelled_context :
    let r : Rehearsal Nat := {
      plan := [⟨none, false, .ok 1⟩]
      policy := ⟨5, .ofMillis 1⟩
      context := .ofToken ⟨0, []⟩
      tokens := ⟨1, [0]⟩
      cancels := []
      retry := .start
      record := ⟨0, []⟩
      log := [] }
    r.context.ended? r.tokens 0 = some .cancelled ∧
      (r.run 0).2.retry = .settled (.error (.ended .cancelled)) ∧
      (r.run 0).2.record.polledAt = [] ∧ (r.run 0).2.record.calls = 1 :=
  ⟨rfl, rfl, rfl, rfl⟩

end EvidenceExchange.Retry
