import EvidenceExchange.Proofs.Exclusion

namespace EvidenceExchange

theorem Receiver.move_of_isOver {r : Receiver} (h : r.isOver = true) (grain : Nat) (ts : Tokens)
    (now : Nat) (s : Sockets) : r.move grain ts now s = none := by
  unfold isOver at h
  split at h
  next phase => simp only [move, phase]
  next => cases h

namespace Exchange

/-- The steps in which one receiver is attended to: time goes on only while it has nothing to do, and
never past a timer that it has set. All others may do what they can. -/
inductive Attended (k : Nat) : Nat × Exchange → Nat × Exchange → Prop
  | wait {now later x r grain} (le : now ≤ later) (here : x.HasReceiver k r) (pos : 0 < grain)
      (idle : r.move grain x.tokens now x.sockets = none)
      (woken : ∀ t ∈ r.timers, now < t → later ≤ t) : Attended k (now, x) (later, x)
  | cancel {now x} (t : Token) (left : List TimedCancel) :
      Attended k (now, x) (now, { x with tokens := x.tokens.cancel t, cancels := left })
  | carryOut {now x call} (underWay : call ∈ x.sockets.detached) :
      Attended k (now, x) (now, { x with sockets := x.sockets.carryOut call })
  | other {now x i a m} (ne : i ≠ k) (here : x.actors[i]? = some a) (started : a.start ≤ now)
      (does : a.role.Does x.tokens now x.sockets m) : Attended k (now, x) (now, x.settle i now a m)
  | poll {now x a r grain o} (here : x.actors[k]? = some a) (role : a.role = .receiver r)
      (started : a.start ≤ now) (pos : 0 < grain)
      (polled : r.move grain x.tokens now x.sockets = some o) :
      Attended k (now, x) (now, x.settle k now a (Role.ofReceiver o))
  | drop {now x a} (here : x.actors[k]? = some a) (started : a.start ≤ now)
      (live : a.role.isOver = false) :
      Attended k (now, x) (now, x.settle k now a (a.role.abort x.sockets))

def AttendedRun (k : Nat) : Nat × Exchange → Nat × Exchange → Prop :=
  Relation.ReflTransGen (Attended k)

theorem Attended.step {k : Nat} {b c : Nat × Exchange} (h : Attended k b c) :
    ∃ mover, Step mover b c := by
  cases h with
  | wait le => exact ⟨none, .wait le⟩
  | cancel t left => exact ⟨none, .cancel t left⟩
  | carryOut underWay => exact ⟨none, .carryOut underWay⟩
  | @other _ _ i _ _ _ here started does => exact ⟨some i, .move here started does⟩
  | @poll _ _ _ r grain o here role started _ polled =>
    refine ⟨some k, .move here started ?_⟩
    rw [role]
    exact .move grain (by simp only [Role.move, polled, Option.map_some])
  | drop here started live => exact ⟨some k, .move here started (.drop live)⟩

theorem Attended.over {k : Nat} {b c : Nat × Exchange} {a : Actor} (h : Attended k b c)
    (here : b.2.actors[k]? = some a) (settled : a.role.isOver = true) :
    c.2.actors[k]? = some a := by
  cases h with
  | wait | cancel | carryOut => exact here
  | other ne => exact (settle_actors_other ne.symm).trans here
  | poll here' role _ _ polled =>
    obtain rfl := Option.some.inj (here'.symm.trans here)
    rw [role] at settled
    rw [Receiver.move_of_isOver settled] at polled
    cases polled
  | drop here' _ live =>
    obtain rfl := Option.some.inj (here'.symm.trans here)
    rw [settled] at live
    cases live

theorem act?_of_firstFrom_none {x : Exchange} {start i : Nat} {f : Actor → Nat → Option Exchange}
    {a : Actor} (none : x.firstFrom start f = none) (here : x.actors[i]? = some a) : f a i = .none := by
  have mem : (a, i) ∈ x.actors.zipIdx := List.mem_zipIdx_iff_getElem?.mpr here
  refine List.findSome?_eq_none_iff.mp none (a, i) ?_
  rw [← List.take_append_drop start x.actors.zipIdx] at mem
  exact List.mem_append.mpr (List.mem_append.mp mem).symm

theorem timers_subset {x : Exchange} {k : Nat} {a : Actor} {r : Receiver}
    (here : x.actors[k]? = some a) (role : a.role = .receiver r) : r.timers ⊆ clockwork.timers x := by
  intro t timer
  have running : a.isOver = false := by
    rw [Actor.isOver, role, Role.isOver]
    unfold Receiver.timers at timer
    split at timer
    next phase => simp only [Receiver.isOver, phase]
    next phase => simp only [Receiver.isOver, phase]
    next => cases timer
  refine List.mem_append_right _ (List.mem_flatMap.mpr ⟨a, List.mem_of_getElem? here, ?_⟩)
  simp [Actor.timers, running, role, Role.timers, timer]

/-- The clock attends to every receiver that has started. -/
theorem attended_of_clockwork {x : Exchange} {now k : Nat} {a : Actor} {r : Receiver}
    {b : Nat × Exchange} (here : x.actors[k]? = some a) (role : a.role = .receiver r)
    (started : a.start ≤ now) (h : clockwork.step now x = some b) : Attended k (now, x) b := by
  unfold Clockwork.step at h
  split at h
  next y hmove =>
    cases h
    have cancelled : ∀ {first}, x.cancel? first now = some y → Attended k (now, x) (now, y) := by
      intro first hc
      obtain ⟨t, left, rfl⟩ := cancel?_eq_some hc
      exact .cancel t left
    simp only [clockwork, Option.orElse_eq_orElse, Option.orElse_eq_or, Option.or_eq_some_iff] at hmove
    obtain hc | ⟨-, hact | ⟨-, hcarry | ⟨-, hc | ⟨-, habort⟩⟩⟩⟩ := hmove
    · exact cancelled hc
    · obtain ⟨a', i, here', hact⟩ := actor_of_firstFrom hact
      obtain ⟨started', m, moved, rfl⟩ := act?_eq_some hact
      by_cases own : i = k
      · subst own
        obtain rfl := Option.some.inj (here'.symm.trans here)
        rw [role] at moved
        obtain ⟨o, polled, rfl⟩ := Option.map_eq_some_iff.mp moved
        exact .poll here role started (by decide) polled
      · exact .other own here' started' (.move Pipe.wholeGrain moved)
    · obtain ⟨call, underWay, rfl⟩ := carryOut?_eq_some hcarry
      exact .carryOut underWay
    · exact cancelled hc
    · obtain ⟨a', i, here', habort⟩ := actor_of_firstFrom habort
      obtain ⟨started', live, rfl⟩ := abort?_eq_some habort
      by_cases own : i = k
      · subst own
        exact .drop here' started' live
      · exact .other own here' started' (.drop live)
  next still =>
    obtain ⟨later, hnext, rfl⟩ := Option.map_eq_some_iff.mp h
    simp only [clockwork, Option.orElse_eq_orElse, Option.orElse_eq_or, Option.or_eq_none_iff] at still
    have idle := act?_of_firstFrom_none still.2.1 here
    rw [act?, if_pos started, Option.map_eq_none_iff, role, Role.move, Option.map_eq_none_iff] at idle
    obtain ⟨mem, least⟩ := List.min?_eq_some_iff.mp hnext
    have passes : now < later := by simpa using (List.mem_filter.mp mem).2
    refine .wait passes.le ⟨a, here, role⟩ (by decide) idle fun t timer lt => ?_
    refine least t (List.mem_filter.mpr ⟨?_, by simpa using lt⟩)
    exact timers_subset here role timer

theorem attendedRun_of_reaches {k : Nat} {b c : Nat × Exchange} (h : clockwork.Reaches b c)
    (started : ∃ a r, b.2.actors[k]? = some a ∧ a.role = .receiver r ∧ a.start ≤ b.1) :
    AttendedRun k b c := by
  induction h with
  | refl => exact .refl
  | @step b d c h rest ih =>
    obtain ⟨a, r, here, role, started⟩ := started
    have attended : Attended k b d := attended_of_clockwork here role started h
    obtain ⟨mover, step⟩ := attended.step
    have later := started.trans step.later.1
    refine .head attended (ih ?_)
    obtain ⟨-, here'⟩ | ⟨-, m, does, here'⟩ := step.actor here
    · exact ⟨a, r, here', role, later⟩
    · rw [role] at does
      obtain ⟨o, -, rfl⟩ := Role.does_receiver does
      exact ⟨_, o.value, here', rfl, later⟩

end Exchange

end EvidenceExchange
