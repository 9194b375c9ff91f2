namespace EvidenceExchange

/-- A system on a virtual clock of milliseconds. The clock stands still while any part of the system can do
something, and otherwise jumps to the next timer that is set. -/
structure Clockwork (σ : Type) where
  /-- Something that can be done at this instant, if anything can. -/
  move : Nat → σ → Option σ
  timers : σ → List Nat

namespace Clockwork

variable {σ : Type}

/-- The first timer after the present instant. -/
def nextTimer (now : Nat) (timers : List Nat) : Option Nat :=
  (timers.filter (now < ·)).min?

theorem nextTimer_eq_some_iff {now later : Nat} {timers : List Nat} :
    nextTimer now timers = some later ↔
      now < later ∧ later ∈ timers ∧ ∀ t ∈ timers, now < t → later ≤ t := by
  simp only [nextTimer, List.min?_eq_some_iff, List.mem_filter, decide_eq_true_eq]
  constructor
  · rintro ⟨⟨mem, lt⟩, least⟩
    exact ⟨lt, mem, fun t ht passes => least t ⟨ht, passes⟩⟩
  · rintro ⟨lt, mem, least⟩
    exact ⟨⟨mem, lt⟩, fun t ht => least t ht.1 ht.2⟩

theorem exists_nextTimer {now t : Nat} {timers : List Nat} (mem : t ∈ timers)
    (lt : now < t) : ∃ later, nextTimer now timers = some later := by
  refine Option.ne_none_iff_exists'.mp fun none => ?_
  have nothing := List.min?_eq_none_iff.mp none
  exact (List.not_mem_nil (nothing ▸ List.mem_filter.mpr ⟨mem, by simpa using lt⟩)).elim

def step (c : Clockwork σ) (now : Nat) (s : σ) : Option (Nat × σ) :=
  match c.move now s with
  | some s => some (now, s)
  | none => (nextTimer now (c.timers s)).map (·, s)

/-- Runs until nothing is left to do and no timer is set, or for as many steps as there is fuel. -/
def run (c : Clockwork σ) : Nat → Nat × σ → Nat × σ
  | 0, start => start
  | fuel + 1, (now, s) =>
    match c.step now s with
    | some next => c.run fuel next
    | none => (now, s)

/-- Runs like `run`, but not past an instant. -/
def runUntil (c : Clockwork σ) (limit : Nat) : Nat → Nat × σ → Nat × σ
  | 0, start => start
  | fuel + 1, (now, s) =>
    match c.step now s with
    | some (later, next) => if later ≤ limit then c.runUntil limit fuel (later, next) else (now, s)
    | none => (now, s)

theorem le_of_step {c : Clockwork σ} {now later : Nat} {s s' : σ}
    (next : c.step now s = some (later, s')) : now ≤ later := by
  unfold step at next
  split at next
  next =>
    cases next
    exact Nat.le_refl _
  next =>
    obtain ⟨t, timer, same⟩ := Option.map_eq_some_iff.mp next
    cases same
    exact Nat.le_of_lt (nextTimer_eq_some_iff.mp timer).1

theorem le_run (c : Clockwork σ) (fuel : Nat) (a : Nat × σ) : a.1 ≤ (c.run fuel a).1 := by
  induction fuel generalizing a with
  | zero => exact Nat.le_refl _
  | succ fuel ih =>
    rw [run]
    cases next : c.step a.1 a.2 with
    | none => exact Nat.le_refl _
    | some b => exact Nat.le_trans (le_of_step next) (ih b)

/-- A run that is over by the instant is not cut short there. -/
theorem runUntil_eq_run {c : Clockwork σ} {limit fuel : Nat} {a : Nat × σ}
    (within : (c.run fuel a).1 ≤ limit) : c.runUntil limit fuel a = c.run fuel a := by
  induction fuel generalizing a with
  | zero => rfl
  | succ fuel ih =>
    rw [run] at within ⊢
    rw [runUntil]
    cases next : c.step a.1 a.2 with
    | none => rfl
    | some b =>
      simp only [next] at within
      have early : b.1 ≤ limit := Nat.le_trans (c.le_run fuel b) within
      exact (if_pos early).trans (ih within)

/-- The states that a run passes through. -/
inductive Reaches (c : Clockwork σ) : Nat × σ → Nat × σ → Prop where
  | refl (a : Nat × σ) : Reaches c a a
  | step {a b d : Nat × σ} (h : c.step a.1 a.2 = some b) (rest : Reaches c b d) : Reaches c a d

theorem reaches_run (c : Clockwork σ) (fuel : Nat) (a : Nat × σ) : c.Reaches a (c.run fuel a) := by
  induction fuel generalizing a with
  | zero => exact .refl a
  | succ fuel ih =>
    simp only [run]
    split
    next b h => exact .step h (ih b)
    next => exact .refl a

end Clockwork

end EvidenceExchange
