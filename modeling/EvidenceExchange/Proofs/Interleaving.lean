import EvidenceExchange.Exchange
import EvidenceExchange.Proofs.FileSystem.Tree

namespace EvidenceExchange

/-- What a role may do at an instant: its next move, or the end of a call that is dropped. -/
inductive Role.Does (role : Role) (ts : Tokens) (now : Nat) (s : Sockets) : RoleMove → Prop
  | move {m} (grain : Nat) (h : role.move grain ts now s = some m) : Does role ts now s m
  | drop (live : role.isOver = false) : Does role ts now s (role.abort s)

inductive Receiver.Does (r : Receiver) (ts : Tokens) (now : Nat) (s : Sockets) :
    Outcome Receiver → Prop
  | move {o} (grain : Nat) (h : r.move grain ts now s = some o) : Does r ts now s o
  | drop (live : r.isOver = false) : Does r ts now s (r.abort s)

inductive Sender.Does (d : Sender) (ts : Tokens) (now : Nat) (s : Sockets) : Outcome Sender → Prop
  | move {o} (grain : Nat) (h : d.move grain ts now s = some o) : Does d ts now s o
  | drop (live : d.isOver = false) : Does d ts now s (d.abort s)

namespace Role

variable {ts : Tokens} {now : Nat} {s : Sockets} {m : RoleMove}

@[simp]
theorem ofReceiver_role (o : Outcome Receiver) : (ofReceiver o).role = receiver o.value := rfl

@[simp]
theorem ofReceiver_sockets (o : Outcome Receiver) : (ofReceiver o).sockets = o.sockets := rfl

@[simp]
theorem ofReceiver_log (o : Outcome Receiver) : (ofReceiver o).log = o.log := rfl

@[simp]
theorem ofReceiver_cancelsAll (o : Outcome Receiver) : (ofReceiver o).cancelsAll = false := rfl

theorem does_receiver {r : Receiver} (h : (receiver r).Does ts now s m) :
    ∃ o, r.Does ts now s o ∧ m = ofReceiver o := by
  cases h with
  | move grain h =>
    obtain ⟨o, ho, rfl⟩ := Option.map_eq_some_iff.mp h
    exact ⟨o, .move grain ho, rfl⟩
  | drop live => exact ⟨r.abort s, .drop live, rfl⟩

theorem does_sender {d : Sender} (h : (sender d).Does ts now s m) :
    ∃ o, d.Does ts now s o ∧ m = ⟨sender o.value, o.sockets, o.log, false, .first⟩ := by
  cases h with
  | move grain h =>
    obtain ⟨o, ho, rfl⟩ := Option.map_eq_some_iff.mp h
    exact ⟨o, .move grain ho, rfl⟩
  | drop live => exact ⟨d.abort s, .drop live, rfl⟩

theorem does_peer {p : Peer} (h : (peer p).Does ts now s m) :
    m = ⟨peer p, s, [], false, .first⟩ ∨
      ∃ grain o, p.move grain now s = some o ∧
        m = ⟨peer o.peer, o.sockets, [], o.cancelsAll, o.next⟩ := by
  cases h with
  | move grain h =>
    obtain ⟨o, ho, rfl⟩ := Option.map_eq_some_iff.mp h
    exact .inr ⟨grain, o, ho, rfl⟩
  | drop live => exact .inl rfl

end Role

/-- A call that is yet to begin. -/
def Role.IsNew : Role → Prop
  | receiver r => r.phase = .starting
  | sender d => d.phase = .starting
  | peer p => ∃ steps, p = .new steps

namespace Exchange

/-- Nobody has begun, over any tree of files in which nobody listens. -/
structure Initial (x : Exchange) : Prop where
  wellFormed : x.sockets.fs.WellFormed
  listening : x.sockets.listening = []
  connections : x.sockets.connections = []
  isNew : ∀ a ∈ x.actors, a.role.IsNew ∧ a.log = []

/-- One step, with the number of the actor that makes it if one does. -/
inductive Step : Option Nat → Nat × Exchange → Nat × Exchange → Prop
  | wait {now later x} (le : now ≤ later) : Step none (now, x) (later, x)
  | cancel {now x} (t : Token) (left : List TimedCancel) :
      Step none (now, x) (now, { x with tokens := x.tokens.cancel t, cancels := left })
  | carryOut {now x call} (underWay : call ∈ x.sockets.detached) :
      Step none (now, x) (now, { x with sockets := x.sockets.carryOut call })
  | move {now x i a m} (here : x.actors[i]? = some a) (started : a.start ≤ now)
      (does : a.role.Does x.tokens now x.sockets m) :
      Step (some i) (now, x) (now, x.settle i now a m)

/-- The runs whose steps keep a rule. -/
def Run (rule : Option Nat → Exchange → Exchange → Prop) : Nat × Exchange → Nat × Exchange → Prop :=
  Relation.ReflTransGen fun a b => ∃ mover, Step mover a b ∧ rule mover a.2 b.2

theorem settle_actors_self {x : Exchange} {i now : Nat} {a : Actor} {m : RoleMove}
    (here : x.actors[i]? = some a) : (x.settle i now a m).actors[i]? = some (a.after now m) := by
  obtain ⟨hi, -⟩ := List.getElem?_eq_some_iff.mp here
  simp [settle, hi]

theorem settle_actors_other {x : Exchange} {i k now : Nat} {a : Actor} {m : RoleMove}
    (ne : k ≠ i) : (x.settle i now a m).actors[k]? = x.actors[k]? := by
  simp [settle, List.getElem?_set_ne ne.symm]

/-- After a step every actor is where it was, but for the one that moved. -/
theorem settle_actors_cases {x : Exchange} {i k now : Nat} {a b : Actor} {m : RoleMove}
    (here : x.actors[i]? = some a) (h : (x.settle i now a m).actors[k]? = some b) :
    k = i ∧ b = a.after now m ∨ k ≠ i ∧ x.actors[k]? = some b := by
  by_cases hk : k = i
  · subst hk
    rw [settle_actors_self here] at h
    exact .inl ⟨rfl, (Option.some.inj h).symm⟩
  · rw [settle_actors_other hk] at h
    exact .inr ⟨hk, h⟩

/-- Time goes on, and no cancelled token comes back. -/
theorem Step.later {mover : Option Nat} {a b : Nat × Exchange} (h : Step mover a b) :
    a.1 ≤ b.1 ∧ a.2.tokens.cancelled ⊆ b.2.tokens.cancelled := by
  cases h with
  | wait le => exact ⟨le, List.Subset.refl _⟩
  | cancel => exact ⟨le_rfl, List.subset_cons_self _ _⟩
  | carryOut => exact ⟨le_rfl, List.Subset.refl _⟩
  | move =>
    refine ⟨le_rfl, ?_⟩
    simp only [settle]
    split
    next => exact List.subset_cons_self _ _
    next => exact List.Subset.refl _

theorem Step.same_instant {i : Nat} {a b : Nat × Exchange} (h : Step (some i) a b) : b.1 = a.1 := by
  cases h
  rfl

theorem Step.actor {mover : Option Nat} {b c : Nat × Exchange} {k : Nat} {a : Actor}
    (h : Step mover b c) (hk : b.2.actors[k]? = some a) :
    mover ≠ some k ∧ c.2.actors[k]? = some a ∨
      mover = some k ∧ ∃ m, a.role.Does b.2.tokens b.1 b.2.sockets m ∧
        c.2.actors[k]? = some (a.after b.1 m) := by
  cases h with
  | wait | cancel | carryOut => exact .inl ⟨by simp, hk⟩
  | @move now x i a' m here started does =>
    by_cases hki : k = i
    · subst hki
      obtain rfl := Option.some.inj (here.symm.trans hk)
      exact .inr ⟨rfl, m, does, settle_actors_self here⟩
    · exact .inl ⟨by simpa using Ne.symm hki, (settle_actors_other hki).trans hk⟩

theorem actor_of_firstFrom {x y : Exchange} {start : Nat} {f : Actor → Nat → Option Exchange}
    (h : x.firstFrom start f = some y) : ∃ a i, x.actors[i]? = some a ∧ f a i = some y := by
  obtain ⟨⟨a, i⟩, hmem, hf⟩ := List.exists_of_findSome?_eq_some h
  have hzip : (a, i) ∈ x.actors.zipIdx := by
    obtain hmem | hmem := List.mem_append.mp hmem
    · exact List.mem_of_mem_drop hmem
    · exact List.mem_of_mem_take hmem
  exact ⟨a, i, List.mem_zipIdx_iff_getElem?.mp hzip, hf⟩

theorem act?_eq_some {x y : Exchange} {grain now i : Nat} {a : Actor}
    (h : x.act? grain now a i = some y) : a.start ≤ now ∧
      ∃ m, a.role.move grain x.tokens now x.sockets = some m ∧ y = x.settle i now a m := by
  unfold act? at h
  split at h
  next started =>
    obtain ⟨m, hm, rfl⟩ := Option.map_eq_some_iff.mp h
    exact ⟨started, m, hm, rfl⟩
  next => cases h

theorem abort?_eq_some {x y : Exchange} {now i : Nat} {a : Actor}
    (h : x.abort? now a i = some y) : a.start ≤ now ∧ a.role.isOver = false ∧
      y = x.settle i now a (a.role.abort x.sockets) := by
  unfold abort? at h
  split at h
  next hlive =>
    simp only [Bool.and_eq_true, Bool.not_eq_eq_eq_not, Bool.not_true, decide_eq_true_eq] at hlive
    exact ⟨hlive.1.2, hlive.1.1, (Option.some.inj h).symm⟩
  next => cases h

theorem cancel?_eq_some {x y : Exchange} {first : Bool} {now : Nat}
    (h : x.cancel? first now = some y) :
    ∃ t left, y = { x with tokens := x.tokens.cancel t, cancels := left } := by
  obtain ⟨⟨ts, left⟩, htake, rfl⟩ := Option.map_eq_some_iff.mp h
  obtain ⟨⟨c, cs⟩, -, hc⟩ := Option.map_eq_some_iff.mp htake
  cases hc
  exact ⟨c.token, left, rfl⟩

theorem carryOut?_eq_some {x y : Exchange} (h : x.carryOut? = some y) :
    ∃ call ∈ x.sockets.detached, y = { x with sockets := x.sockets.carryOut call } := by
  obtain ⟨call, first, rfl⟩ := Option.map_eq_some_iff.mp h
  exact ⟨call, List.mem_of_head? first, rfl⟩

/-- Whatever the clock does next is one of the steps. -/
theorem step_of_clockwork {now : Nat} {x : Exchange} {b : Nat × Exchange}
    (h : clockwork.step now x = some b) : ∃ mover, Step mover (now, x) b := by
  unfold Clockwork.step at h
  split at h
  next y hmove =>
    cases h
    have cancelled : ∀ {first}, x.cancel? first now = some y → Step none (now, x) (now, y) := by
      intro first hc
      obtain ⟨t, left, rfl⟩ := cancel?_eq_some hc
      exact .cancel t left
    simp only [clockwork, Option.orElse_eq_orElse, Option.orElse_eq_or, Option.or_eq_some_iff] at hmove
    obtain hc | ⟨-, hact | ⟨-, hcarry | ⟨-, hc | ⟨-, habort⟩⟩⟩⟩ := hmove
    · exact ⟨none, cancelled hc⟩
    · obtain ⟨a, i, here, hact⟩ := actor_of_firstFrom hact
      obtain ⟨started, m, moved, rfl⟩ := act?_eq_some hact
      exact ⟨some i, .move here started (.move Pipe.wholeGrain moved)⟩
    · obtain ⟨call, underWay, rfl⟩ := carryOut?_eq_some hcarry
      exact ⟨none, .carryOut underWay⟩
    · exact ⟨none, cancelled hc⟩
    · obtain ⟨a, i, here, habort⟩ := actor_of_firstFrom habort
      obtain ⟨started, live, rfl⟩ := abort?_eq_some habort
      exact ⟨some i, .move here started (.drop live)⟩
  next =>
    obtain ⟨later, hnext, rfl⟩ := Option.map_eq_some_iff.mp h
    have hmem := List.min?_mem hnext
    have hlt : now < later := by simpa using (List.mem_filter.mp hmem).2
    exact ⟨none, .wait hlt.le⟩

theorem run_of_reaches {a b : Nat × Exchange} (h : clockwork.Reaches a b) :
    Run (fun _ _ _ => True) a b := by
  induction h with
  | refl a => exact .refl
  | step h _ ih =>
    obtain ⟨mover, hstep⟩ := step_of_clockwork h
    exact .head ⟨mover, hstep, trivial⟩ ih

/-- What the clock makes of an exchange, with what is true of every state but the last. -/
theorem run_of_clockwork {p : Exchange → Prop} (fuel : Nat) (a : Nat × Exchange)
    (holds : ∀ n < fuel, p (clockwork.run n a).2) : Run (fun _ x _ => p x) a (clockwork.run fuel a) := by
  induction fuel generalizing a with
  | zero => exact .refl
  | succ fuel ih =>
    have now := holds 0 (Nat.succ_pos fuel)
    rw [Clockwork.run]
    cases next : clockwork.step a.1 a.2 with
    | none => exact .refl
    | some b =>
      obtain ⟨mover, step⟩ := step_of_clockwork next
      refine .head ⟨mover, step, now⟩ (ih b fun n lt => ?_)
      have later := holds (n + 1) (Nat.succ_lt_succ lt)
      rwa [Clockwork.run, next] at later

end Exchange

end EvidenceExchange
