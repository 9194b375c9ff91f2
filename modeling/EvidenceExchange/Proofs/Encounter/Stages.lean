import EvidenceExchange.Proofs.Encounter.Handover

namespace EvidenceExchange.Exchange

theorem total_eq_sum {α : Type} (weight : α → Nat) (xs : List α) :
    total weight xs = (xs.map weight).sum := by
  rw [total, List.sum_eq_foldl, List.foldl_map]

namespace Encounter

variable {x : Exchange} (e : Encounter x)

/-- So many attempts, all of which fail. -/
def failures (m : Nat) : List Attempt :=
  (List.range m).map fun k => ⟨e.attemptAt k, false⟩

theorem failures_succ (m : Nat) : e.failures (m + 1) = e.failures m ++ [⟨e.attemptAt m, false⟩] := by
  rw [failures, List.range_succ, List.map_append]
  rfl

/-- A bound on the steps of both. -/
def budget : Nat := e.callerSteps 0 .starting + e.hostSteps 0 .starting

/-- The clock has more fuel than the two have steps. -/
theorem budget_lt_fuel : e.budget < x.fuel := by
  obtain ⟨-, bytes⟩ := Evidence.Bundle.encode_eq_ok_iff.mp e.encoded
  have payload_length := congrArg List.length bytes
  rw [Evidence.Bundle.length_bytes] at payload_length
  have frame_length : e.frame.length = 4 + e.payload.length := by
    rw [frame, List.length_append, BigEndian.length_encode, Frame.lengthSize]
  have caller_weight : roleWeight (.sender e.d) = 8 * e.rounds + 32 +
      (e.d.bundle.map fun p => 10 + p.data.length + p.signature.length).sum := by
    rw [roleWeight, e.maxAttempts_eq, total_eq_sum]
  have weighs : roleWeight (.sender e.d) ≤ total (fun a => roleWeight a.role) x.actors := by
    rw [total_eq_sum]
    exact List.le_sum_of_mem (List.mem_map_of_mem (List.mem_of_getElem? e.calls))
  simp only [budget, fuel, callerSteps, hostSteps]
  split <;> split <;> omega

/-- None of the first attempts comes while the receiver can be reached, its first and its last instant
apart. -/
def MissedBefore (m : Nat) : Prop :=
  ∀ k < m, e.attemptAt k ≤ e.opens ∨ e.closes ≤ e.attemptAt k

/-- A sender that does not connect any more. -/
inductive Connected : Sender.Phase → Prop
  | writing {payload stream rest} : Connected (.writing payload stream rest)
  | settled {result} : Connected (.settled result)

/-- Where the two have come after so many steps, with the attempts that were made. -/
inductive Stage (steps : Nat) : List Attempt → Nat × Exchange → Prop
  | apart {m now y p u q v} (view : e.View y p u q v) (calling : e.Calling m now p u)
      (awaiting : e.Awaiting now y.sockets q v) (missed : e.MissedBefore m)
      (left : steps + e.callerSteps now p + e.hostSteps now q ≤ e.budget) :
      Stage steps (e.failures m) (now, y)
  | together {m y p u q v} (view : e.View y p u q v)
      (handover : e.Handover (e.attemptAt m) y.sockets p u q v) (more : m < e.rounds)
      (opened : e.opens ≤ e.attemptAt m) (early : e.attemptAt m < e.closes)
      (missed : e.MissedBefore m)
      (left : steps + e.callerSteps (e.attemptAt m) p + e.hostSteps (e.attemptAt m) q ≤ e.budget) :
      Stage steps (e.failures m ++ [⟨e.attemptAt m, true⟩]) (e.attemptAt m, y)
  | late {m now y p u q v} (view : e.View y p u q v) (connected : Connected p) (more : m < e.rounds)
      (late : e.attemptAt m = e.closes) (missed : e.MissedBefore m) :
      Stage steps (e.failures m ++ [⟨e.attemptAt m, true⟩]) (now, y)

variable {e} {m now grain steps : Nat} {y : Exchange} {p p' : Sender.Phase} {u : Option Nat}
  {q : Receiver.Phase} {v : Option Nat} {b c : Nat × Exchange} {tries : List Attempt}
  {mover : Option Nat}

theorem MissedBefore.succ (missed : e.MissedBefore m)
    (last : e.attemptAt m ≤ e.opens ∨ e.closes ≤ e.attemptAt m) : e.MissedBefore (m + 1) := by
  intro k lt
  obtain before | rfl := Nat.lt_succ_iff_lt_or_eq.mp lt
  · exact missed k before
  · exact last

theorem Connected.attempt? (connected : Connected p) (ts : Tokens) (now : Nat) (s : Sockets) :
    (e.d.goTo p).attempt? ts now s = none := by
  cases connected <;> rfl

theorem Connected.move (connected : Connected p) {ts : Tokens} {s : Sockets} {o : Outcome Sender}
    (moved : (e.d.goTo p).move grain ts now s = some o) (after : o.value = e.d.goTo p') :
    Connected p' := by
  have same : ∀ {phase}, (e.d.goTo p).goTo phase = e.d.goTo p' → phase = p' :=
    fun h => congrArg Sender.phase h
  have turn := Sender.turn_of_does (.move grain moved)
  cases connected with
  | settled => cases moved
  | writing =>
    cases turn with
    | write | deliver | hangUp =>
      obtain rfl := same after
      constructor
    | quit early =>
      obtain phase | ⟨_, _, phase⟩ := early <;> cases phase
    | start phase | retry phase | connect phase | connectFails phase => cases phase

namespace Stage

theorem initially (e : Encounter x) : e.Stage 0 [] (0, x) := by
  have left : 0 + e.callerSteps 0 .starting + e.hostSteps 0 .starting ≤ e.budget := by
    rw [budget, Nat.zero_add]
  exact .apart e.view (.starting rfl (Nat.zero_le _)) (.initially e)
    (fun _ lt => absurd lt (Nat.not_lt_zero _)) left

theorem step_apart (view : e.View y p u q v) (calling : e.Calling m now p u)
    (awaiting : e.Awaiting now y.sockets q v) (missed : e.MissedBefore m)
    (left : steps + e.callerSteps now p + e.hostSteps now q ≤ e.budget)
    (step : Prompt mover (now, y) b) :
    e.Stage (steps + 1) (e.failures m ++ attempts e.caller mover (now, y)) b := by
  obtain ⟨later, z⟩ := b
  obtain ⟨rfl, started, rfl, grain, o, p', pos, moved, after, sockets, view'⟩ |
    ⟨rfl, started, rfl, grain, o, q', pos, moved, after, sockets, view'⟩ |
    ⟨rfl, rfl, passes, mem, ahead, ahead', grain, pos, idle⟩ := view.step step
  · obtain ⟨moves, less⟩ := calling.step started moved after
    rw [← sockets] at moves
    rw [view.attempts_of_caller]
    generalize (e.d.goTo p).attempt? x.tokens later y.sockets = attempt at moves ⊢
    generalize same : z.sockets = s at moves
    cases moves with
    | goesOn calling' =>
      rw [Option.toList_none, List.append_nil]
      exact .apart view' calling' (same ▸ awaiting) missed (by omega)
    | fails more due refused calling' =>
      have missed' := missed.succ (due ▸ awaiting.closed_of_refused refused)
      rw [Option.toList_some, due, ← e.failures_succ, ← due]
      exact .apart view' calling' (same ▸ awaiting) missed' (by omega)
    | connects more due connected =>
      obtain ⟨li, rfl, rfl, opened, early, rfl, hosts⟩ := awaiting.of_connected connected
      subst due
      obtain before | late := Nat.lt_or_eq_of_le early
      · rw [← same] at hosts
        exact .together view' (.begin hosts) more opened before missed (by omega)
      · exact .late view' .writing more late missed
  · obtain ⟨awaiting', less⟩ := awaiting.step started moved after
    rw [e.attempts_of_host, List.append_nil]
    exact .apart view' calling (sockets ▸ awaiting') missed (by omega)
  · have rests := calling.rests (view.caller_idle idle)
    have rests' := awaiting.rests (view.host_idle idle)
    obtain ⟨calling', le, less⟩ := rests.wait passes ahead
    obtain ⟨awaiting', le', less'⟩ := rests'.wait passes ahead'
    rw [attempts_of_ne (Option.some_ne_none _).symm, List.append_nil]
    refine .apart view calling' awaiting' missed ?_
    obtain timer | timer := mem
    · have := less timer
      omega
    · have := less' timer
      omega

theorem step_together (view : e.View y p u q v)
    (handover : e.Handover (e.attemptAt m) y.sockets p u q v) (more : m < e.rounds)
    (opened : e.opens ≤ e.attemptAt m) (early : e.attemptAt m < e.closes) (missed : e.MissedBefore m)
    (left : steps + e.callerSteps (e.attemptAt m) p + e.hostSteps (e.attemptAt m) q ≤ e.budget)
    (step : Prompt mover (e.attemptAt m, y) b) :
    e.Stage (steps + 1)
      (e.failures m ++ [⟨e.attemptAt m, true⟩] ++ attempts e.caller mover (e.attemptAt m, y)) b := by
  obtain ⟨later, z⟩ := b
  obtain ⟨rfl, started, rfl, grain, o, p', pos, moved, after, sockets, view'⟩ |
    ⟨rfl, started, rfl, grain, o, q', pos, moved, after, sockets, view'⟩ |
    ⟨rfl, rfl, passes, mem, ahead, ahead', grain, pos, idle⟩ := view.step step
  · obtain ⟨handover', silent, less⟩ := handover.caller_step pos moved after
    rw [view.attempts_of_caller, silent, Option.toList_none, List.append_nil]
    exact .together view' (sockets ▸ handover') more opened early missed (by omega)
  · obtain ⟨handover', less⟩ := handover.host_step early pos moved after
    rw [e.attempts_of_host, List.append_nil]
    exact .together view' (sockets ▸ handover') more opened early missed (by omega)
  · obtain ⟨rfl, -, rfl, -⟩ := handover.over_of_idle pos
      (view.caller_idle idle (e.begins_le_attemptAt m)) (view.host_idle idle opened)
    obtain ⟨⟨⟩⟩ | ⟨⟨⟩⟩ := mem

theorem step_late (view : e.View y p u q v) (connected : Connected p) (more : m < e.rounds)
    (late : e.attemptAt m = e.closes) (missed : e.MissedBefore m)
    (step : Prompt mover (now, y) b) :
    e.Stage (steps + 1)
      (e.failures m ++ [⟨e.attemptAt m, true⟩] ++ attempts e.caller mover (now, y)) b := by
  obtain ⟨later, z⟩ := b
  have silent : attempts e.caller mover (now, y) = [] := by
    by_cases mine : mover = some e.caller
    · rw [mine, view.attempts_of_caller, connected.attempt?, Option.toList_none]
    · exact attempts_of_ne mine _
  rw [silent, List.append_nil]
  obtain ⟨-, -, -, grain, o, p', -, moved, after, -, view'⟩ |
    ⟨-, -, -, grain, o, q', -, -, -, -, view'⟩ | ⟨-, rfl, -⟩ := view.step step
  · exact .late view' (connected.move moved after) more late missed
  · exact .late view' connected more late missed
  · exact .late view connected more late missed

theorem step (stage : e.Stage steps tries b) (step : Prompt mover b c) :
    e.Stage (steps + 1) (tries ++ attempts e.caller mover b) c := by
  cases stage with
  | apart view calling awaiting missed left =>
    exact step_apart view calling awaiting missed left step
  | together view handover more opened early missed left =>
    exact step_together view handover more opened early missed left step
  | late view connected more late missed => exact step_late view connected more late missed step

theorem run (run : PromptRun e.caller (0, x) steps tries b) : e.Stage steps tries b := by
  induction run with
  | refl => exact .initially e
  | tail _ step ih => exact ih.step step

end Stage

end Encounter

end EvidenceExchange.Exchange
