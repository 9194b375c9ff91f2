import Mathlib.Logic.Basic

namespace EvidenceExchange

/-- Checks made one after another succeed when each of them does. -/
theorem Except.bind_eq_ok_iff {ε α β : Type} {x : Except ε α} {f : α → Except ε β} {b : β} :
    (x >>= f) = .ok b ↔ ∃ a, x = .ok a ∧ f a = .ok b := by
  cases x with
  | error e => simp [bind, Except.bind]
  | ok a => simp [bind, Except.bind]

theorem Except.ite_eq_ok_iff {ε α : Type} {p : Prop} [Decidable p] {e : ε} {x : Except ε α} {a : α} :
    (if p then .error e else x) = .ok a ↔ ¬p ∧ x = .ok a := by
  split
  next h => simp [h]
  next h => simp [h]

/-- Checks made one after another fail when one fails and those before it succeed. -/
theorem Except.bind_eq_error_iff {ε α β : Type} {x : Except ε α} {f : α → Except ε β} {e : ε} :
    (x >>= f) = .error e ↔ x = .error e ∨ ∃ a, x = .ok a ∧ f a = .error e := by
  cases x with
  | error e => simp [bind, Except.bind]
  | ok a => simp [bind, Except.bind]

theorem Except.ite_eq_error_iff {ε α : Type} {p : Prop} [Decidable p] {d e : ε} {a : α} :
    (if p then .error d else .ok a) = (.error e : Except ε α) ↔ p ∧ e = d := by
  split
  next h => simp [h, eq_comm]
  next h => simp [h]

end EvidenceExchange
