import EvidenceExchange.Proofs.Attendance

namespace EvidenceExchange

/-- One attempt of a sender to connect. -/
structure Attempt where
  instant : Nat
  connects : Bool
  deriving DecidableEq

/-- The attempt that a sender makes with its next move, if it makes one. -/
def Sender.attempt? (d : Sender) (ts : Tokens) (now : Nat) (s : Sockets) : Option Attempt :=
  match d.phase, d.context.pollDone ts now with
  | .connecting _ (.trying _ _), none => some ⟨now, (s.connect d.path).1.isOk⟩
  | _, _ => none

namespace Exchange

/-- None of the actors that have started can do anything, were it only for so many bytes. -/
def Idles (x : Exchange) (grain now : Nat) : Prop :=
  ∀ (i : Nat) (a : Actor), x.actors[i]? = some a → a.start ≤ now →
    a.role.move grain x.tokens now x.sockets = none

/-- The steps in which nobody is kept waiting, with the number of the actor that moves if one does. -/
inductive Prompt : Option Nat → Nat × Exchange → Nat × Exchange → Prop
  | move {now x i a grain m} (here : x.actors[i]? = some a) (started : a.start ≤ now)
      (pos : 0 < grain) (moved : a.role.move grain x.tokens now x.sockets = some m) :
      Prompt (some i) (now, x) (now, x.settle i now a m)
  | carryOut {now x call} (underWay : call ∈ x.sockets.detached) :
      Prompt none (now, x) (now, { x with sockets := x.sockets.carryOut call })
  | wait {now later x grain} (pos : 0 < grain) (idle : x.Idles grain now)
      (next : Clockwork.nextTimer now (clockwork.timers x) = some later) :
      Prompt none (now, x) (later, x)

/-- The attempts that a step makes, if the actor with the given number is the one that moves. -/
def attempts (j : Nat) (mover : Option Nat) (b : Nat × Exchange) : List Attempt :=
  match b.2.actors[j]?.map Actor.role with
  | some (.sender d) =>
    if mover = some j then (d.attempt? b.2.tokens b.1 b.2.sockets).toList else []
  | _ => []

/-- A run of so many steps, with the attempts of one actor in their order. -/
inductive PromptRun (j : Nat) (a : Nat × Exchange) : Nat → List Attempt → Nat × Exchange → Prop
  | refl : PromptRun j a 0 [] a
  | tail {steps tries mover b c} (run : PromptRun j a steps tries b) (step : Prompt mover b c) :
      PromptRun j a (steps + 1) (tries ++ attempts j mover b) c

/-- Nothing is cancelled from outside, and no call is dropped. -/
structure Undisturbed (x : Exchange) : Prop where
  uncancelled : x.cancels = []
  undropped : ∀ a ∈ x.actors, a.abortAt = none

variable {x : Exchange} {now : Nat}

theorem attempts_of_ne {j : Nat} {mover : Option Nat} (other : mover ≠ some j) (b : Nat × Exchange) :
    attempts j mover b = [] := by
  unfold attempts
  split
  next => exact if_neg other
  next => rfl

theorem Undisturbed.prompt {mover : Option Nat} {a b : Nat × Exchange} (h : a.2.Undisturbed)
    (step : Prompt mover a b) : b.2.Undisturbed := by
  cases step with
  | wait => exact h
  | carryOut => exact ⟨h.uncancelled, h.undropped⟩
  | @move now x i a grain m here =>
    refine ⟨h.uncancelled, fun c mem => ?_⟩
    obtain old | rfl := List.mem_or_eq_of_mem_set mem
    · exact h.undropped c old
    · exact h.undropped a (List.mem_of_getElem? here)

theorem Undisturbed.cancel?_eq_none (h : x.Undisturbed) (first : Bool) : x.cancel? first now = none := by
  simp only [cancel?, TimedCancel.takeEffect?, h.uncancelled, TimedCancel.due?, Option.map_none]

theorem Undisturbed.abort?_eq_none (h : x.Undisturbed) : x.firstFrom 0 (x.abort? now) = none := by
  refine Option.eq_none_iff_forall_ne_some.mpr fun y dropped => ?_
  obtain ⟨a, i, here, dropped⟩ := actor_of_firstFrom dropped
  simp [abort?, h.undropped a (List.mem_of_getElem? here)] at dropped

theorem idles_of_move (still : clockwork.move now x = none) : x.Idles Pipe.wholeGrain now := by
  simp only [clockwork, Option.orElse_eq_orElse, Option.orElse_eq_or, Option.or_eq_none_iff] at still
  intro i a here started
  have idle := act?_of_firstFrom_none still.2.1 here
  rwa [act?, if_pos started, Option.map_eq_none_iff] at idle

/-- What the clock comes to next, where nobody disturbs the exchange. -/
theorem Undisturbed.prompt_of_clockwork (h : x.Undisturbed) {b : Nat × Exchange}
    (step : clockwork.step now x = some b) : ∃ mover, Prompt mover (now, x) b := by
  unfold Clockwork.step at step
  split at step
  next y moves =>
    cases step
    simp only [clockwork, h.cancel?_eq_none, h.abort?_eq_none, Option.orElse_eq_orElse,
      Option.orElse_eq_or, Option.none_or, Option.or_none] at moves
    obtain acts | ⟨-, carried⟩ := Option.or_eq_some_iff.mp moves
    · obtain ⟨a, i, here, acts⟩ := actor_of_firstFrom acts
      obtain ⟨started, m, moved, rfl⟩ := act?_eq_some acts
      exact ⟨some i, .move here started (by decide) moved⟩
    · obtain ⟨call, underWay, rfl⟩ := carryOut?_eq_some carried
      exact ⟨none, .carryOut underWay⟩
  next still =>
    obtain ⟨later, next, rfl⟩ := Option.map_eq_some_iff.mp step
    exact ⟨none, .wait (by decide) (idles_of_move still) next⟩

/-- The clock stops only where nobody can do anything and no timer is set. -/
theorem idle_of_clockwork (stops : clockwork.step now x = none) :
    x.Idles Pipe.wholeGrain now ∧ Clockwork.nextTimer now (clockwork.timers x) = none := by
  unfold Clockwork.step at stops
  split at stops
  next => cases stops
  next still => exact ⟨idles_of_move still, Option.map_eq_none_iff.mp stops⟩

/-- Whoever cannot go on waits for a timer. -/
def Goes (b : Nat × Exchange) : Prop :=
  ∀ grain, 0 < grain → b.2.Idles grain b.1 →
    ∃ later, Clockwork.nextTimer b.1 (clockwork.timers b.2) = some later

theorem Goes.exists_prompt {b : Nat × Exchange} (goes : Goes b) : ∃ mover c, Prompt mover b c := by
  obtain ⟨now, x⟩ := b
  by_cases idle : x.Idles 1 now
  · obtain ⟨later, next⟩ := goes 1 Nat.one_pos idle
    exact ⟨none, _, .wait Nat.one_pos idle next⟩
  · unfold Idles at idle
    push Not at idle
    obtain ⟨i, a, here, started, moves⟩ := idle
    obtain ⟨m, moved⟩ := Option.ne_none_iff_exists'.mp moves
    exact ⟨some i, _, .move here started Nat.one_pos moved⟩

theorem Goes.step_ne_none {b : Nat × Exchange} (goes : Goes b) : clockwork.step b.1 b.2 ≠ none := by
  intro stops
  obtain ⟨idle, untimed⟩ := idle_of_clockwork stops
  obtain ⟨later, next⟩ := goes _ (by decide) idle
  cases untimed.symm.trans next

/-- The clock runs an exchange that nobody disturbs without keeping anybody waiting, for as long as
there is fuel. -/
theorem PromptRun.clockwork {j steps : Nat} {start b : Nat × Exchange} {tries : List Attempt}
    (run : PromptRun j start steps tries b) (undisturbed : b.2.Undisturbed) (fuel : Nat) :
    ∃ steps' tries', PromptRun j start steps' tries' (clockwork.run fuel b) ∧
      (steps + fuel ≤ steps' ∨
        clockwork.step (clockwork.run fuel b).1 (clockwork.run fuel b).2 = none) := by
  induction fuel generalizing steps tries b with
  | zero => exact ⟨steps, tries, run, .inl le_rfl⟩
  | succ fuel ih =>
    obtain ⟨now, x⟩ := b
    rw [Clockwork.run]
    cases next : Exchange.clockwork.step now x with
    | none => exact ⟨steps, tries, run, .inr next⟩
    | some c =>
      obtain ⟨mover, step⟩ := undisturbed.prompt_of_clockwork next
      obtain ⟨steps', tries', run', ends⟩ := ih (run.tail step) (undisturbed.prompt step)
      exact ⟨steps', tries', run', ends.imp_left fun le => by omega⟩

end Exchange

end EvidenceExchange
