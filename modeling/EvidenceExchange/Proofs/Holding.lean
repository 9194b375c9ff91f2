import EvidenceExchange.Proofs.Exclusion
import EvidenceExchange.Proofs.Numbering

namespace EvidenceExchange

/-- What a receiver can hold at its path. -/
inductive Hold where
  | lock (l : SocketLock)
  /-- A listener, and its lock with it. -/
  | listener (li : SocketListener)

namespace Hold

def socketLock : Hold → SocketLock
  | lock l => l
  | listener li => li.lock

/-- What a turn makes of the files and of what is held at a path, one rule for each way to take, to
keep and to give back. -/
inductive Change (path : String) (s : Sockets) : Option Hold → Sockets → Option Hold → Prop
  | rest {s'} (fs : s'.fs = s.fs) (locked : s'.locked = s.locked) : Change path s none s' none
  | lock {l} (locked : (Transport.lock path s).value = .ok l) :
      Change path s none (Transport.lock path s).sockets (some (.lock l))
  | lockFails {e} (refused : (Transport.lock path s).value = .error e) :
      Change path s none (Transport.lock path s).sockets none
  | release {l s'} (fs : s'.fs = s.fs) (locked : s'.locked = s.locked.erase l.entry) :
      Change path s (some (.lock l)) s' none
  | keep {l} : Change path s (some (.lock l)) s (some (.lock l))
  | remove {l} :
      Change path s (some (.lock l)) (Transport.remove path s).2 (some (.lock l))
  | bind {l li} (bound : (Transport.listen path l s).value = .ok li) :
      Change path s (some (.lock l)) (Transport.listen path l s).sockets (some (.listener li))
  | bindFails {l e} (unbound : (Transport.listen path l s).value = .error e) :
      Change path s (some (.lock l)) (Transport.listen path l s).sockets none
  | overflow {l li} (bound : (Transport.listen path l s).value = .ok li) :
      Change path s (some (.lock l))
        (Transport.closeListener li (Transport.listen path l s).sockets).sockets none
  | close {li s'} (same : s.SameFiles s') :
      Change path s (some (.listener li)) (Transport.closeListener li s').sockets none

/-- While somebody else has the lock, nothing can be taken. -/
theorem Change.shut_out {path : String} {s s' : Sockets} {hold : Option Hold}
    (h : Change path s none s' hold) {entry : Nat} (locks : s.Locks path entry) :
    s'.fs = s.fs ∧ s'.locked = s.locked ∧ hold = none := by
  have refused := Transport.lock_of_locks locks
  cases h with
  | rest fs locked => exact ⟨fs, locked, rfl⟩
  | lock locked =>
    rw [refused] at locked
    cases locked
  | lockFails =>
    rw [refused]
    exact ⟨rfl, rfl, rfl⟩

/-- A turn keeps the lock that is held, or takes one that is free, or gives it back. -/
theorem Change.locked {path : String} {s s' : Sockets} {hold hold' : Option Hold}
    (h : Change path s hold s' hold') :
    (hold'.map socketLock = hold.map socketLock ∧ s'.locked = s.locked) ∨
    (∃ l, hold.map socketLock = none ∧ hold'.map socketLock = some l ∧ l.entry ∉ s.locked ∧
      s'.locked = l.entry :: s.locked) ∨
    ∃ l, hold.map socketLock = some l ∧ hold'.map socketLock = none ∧
      s'.locked = s.locked.erase l.entry := by
  cases h with
  | rest _ locked => exact .inl ⟨rfl, locked⟩
  | @lock l locked =>
    obtain ⟨fs, -, free, taken⟩ := Transport.lock_eq_ok locked
    exact .inr (.inl ⟨l, rfl, rfl, free, by rw [taken]⟩)
  | lockFails refused => exact .inl ⟨rfl, Transport.lock_refused_locked refused⟩
  | @release l _ _ locked => exact .inr (.inr ⟨l, rfl, rfl, locked⟩)
  | keep => exact .inl ⟨rfl, rfl⟩
  | remove => exact .inl ⟨rfl, Transport.remove_locked path s⟩
  | bind bound =>
    obtain ⟨fs, -, -, own, -, same⟩ := Transport.listen_eq_ok bound
    exact .inl ⟨congrArg some own, same⟩
  | @bindFails l _ unbound =>
    refine .inr (.inr ⟨l, rfl, rfl, ?_⟩)
    rw [Transport.listen_eq_error unbound]
    rfl
  | @overflow l li bound =>
    obtain ⟨fs, -, -, own, -, same⟩ := Transport.listen_eq_ok bound
    exact .inr (.inr ⟨l, rfl, rfl, by rw [Transport.closeListener_locked, same, own]⟩)
  | @close li s' same =>
    exact .inr (.inr ⟨li.lock, rfl, rfl, by rw [Transport.closeListener_locked, same.locked]⟩)

end Hold

namespace Receiver

def hold? (r : Receiver) : Option Hold :=
  match r.phase with
  | .reclaiming l | .removing l | .removed l _ | .binding l => some (.lock l)
  | .accepting li _ => some (.listener li)
  | _ => none

theorem lock?_eq_map_hold? (r : Receiver) : r.lock? = r.hold?.map Hold.socketLock := by
  unfold lock? hold?
  split <;> simp_all [Hold.socketLock]

theorem lock?_of_hold? {r : Receiver} {h : Hold} (holds : r.hold? = some h) :
    r.lock? = some h.socketLock := by
  rw [lock?_eq_map_hold?, holds]
  rfl

theorem hold?_eq_none_iff {r : Receiver} : r.hold? = none ↔ r.lock? = none := by
  rw [lock?_eq_map_hold?, Option.map_eq_none_iff]

theorem phase_of_listener {r : Receiver} {li : SocketListener} (h : r.hold? = some (.listener li)) :
    ∃ deadline, r.phase = .accepting li deadline := by
  unfold hold? at h
  split at h <;> cases h
  exact ⟨_, ‹_›⟩

theorem Turn.path_eq {r : Receiver} {s : Sockets} {o : Outcome Receiver} (h : r.Turn s o) :
    o.value.path = r.path := by
  obtain ⟨phase, after, -⟩ := h.ahead
  rw [after]
  rfl

theorem Turn.change {r : Receiver} {s : Sockets} {o : Outcome Receiver} (h : r.Turn s o) :
    Hold.Change r.path s r.hold? o.sockets o.value.hold? := by
  have same {stream deadline reader} (phase : r.phase = .reading stream deadline reader) :=
    h.sameFiles_of_reading phase
  unfold hold?
  cases h with
  | quit phase | start phase | quitLocking phase =>
    rw [phase]
    exact .rest rfl rfl
  | lock phase locked ahead =>
    rw [phase]
    obtain rfl | rfl := ahead <;> exact .lock locked
  | lockFails phase refused =>
    rw [phase]
    exact .lockFails refused
  | release phase => obtain phase | ⟨_, phase⟩ | phase := phase <;> rw [phase] <;> exact .release rfl rfl
  | look phase seen =>
    rw [phase]
    obtain ⟨rfl, -⟩ | rfl := seen <;> exact .keep
  | quitRemoving phase =>
    rw [phase]
    exact .release rfl rfl
  | remove phase =>
    rw [phase]
    exact .remove
  | reclaimed phase =>
    rw [phase]
    exact .keep
  | bind phase bound =>
    rw [phase]
    exact .bind bound
  | bindFails phase unbound =>
    rw [phase]
    exact .bindFails unbound
  | overflow phase bound =>
    rw [phase]
    exact .overflow bound
  | giveUp phase =>
    rw [phase]
    exact .close (.refl s)
  | accept phase accepted =>
    rw [phase]
    exact .close (Sockets.sameFiles_accept accepted)
  | hangUp phase | read phase | readFails phase | receive phase =>
    rw [phase]
    exact .rest (same phase).fs (same phase).locked

theorem Turn.locked {r : Receiver} {s : Sockets} {o : Outcome Receiver} (h : r.Turn s o) :
    (o.value.lock? = r.lock? ∧ o.sockets.locked = s.locked) ∨
    (∃ l, r.lock? = none ∧ o.value.lock? = some l ∧ l.entry ∉ s.locked ∧
      o.sockets.locked = l.entry :: s.locked) ∨
    ∃ l, r.lock? = some l ∧ o.value.lock? = none ∧ o.sockets.locked = s.locked.erase l.entry := by
  simp only [lock?_eq_map_hold?]
  exact h.change.locked

theorem Turn.once_self {r : Receiver} {s : Sockets} {o : Outcome Receiver} (h : r.Turn s o)
    (once : ∀ {l}, r.lock? = some l → s.locked.count l.entry = 1) {l : SocketLock}
    (held : o.value.lock? = some l) : o.sockets.locked.count l.entry = 1 := by
  obtain ⟨same, locked⟩ | ⟨l', -, takes, free, locked⟩ | ⟨_, -, nothing, -⟩ := h.locked
  · exact locked ▸ once (same ▸ held)
  · obtain rfl := Option.some.inj (takes.symm.trans held)
    rw [locked, List.count_cons_self, List.count_eq_zero_of_not_mem free]
  · cases nothing.symm.trans held

theorem Turn.once_other {r : Receiver} {s : Sockets} {o : Outcome Receiver} (h : r.Turn s o)
    {entry : Nat} (once : s.locked.count entry = 1)
    (apart : ∀ {l}, r.lock? = some l → entry ≠ l.entry) :
    o.sockets.locked.count entry = 1 ∧ ∀ {l}, o.value.lock? = some l → entry ≠ l.entry := by
  obtain ⟨same, locked⟩ | ⟨l', -, takes, free, locked⟩ | ⟨l', had, nothing, locked⟩ := h.locked
  · exact ⟨locked ▸ once, fun held => apart (same ▸ held)⟩
  · have other : entry ≠ l'.entry := by
      rintro rfl
      exact free (List.count_pos_iff.mp (once ▸ Nat.one_pos))
    refine ⟨?_, fun held => Option.some.inj (takes.symm.trans held) ▸ other⟩
    rw [locked, List.count_cons_of_ne other.symm, once]
  · refine ⟨?_, fun held => by cases nothing.symm.trans held⟩
    rw [locked, List.count_erase_of_ne (apart had), once]

end Receiver

namespace Exchange

theorem Step.turn {k : Nat} {a b : Nat × Exchange} {r : Receiver} (h : Step (some k) a b)
    (hk : a.2.HasReceiver k r) :
    ∃ o, r.Turn a.2.sockets o ∧ o.sockets = b.2.sockets ∧ b.2.HasReceiver k o.value := by
  cases h with
  | move here started does =>
    obtain ⟨c, hc, hr⟩ := hk
    obtain rfl := Option.some.inj (here.symm.trans hc)
    rw [hr] at does
    obtain ⟨o, ho, rfl⟩ := Role.does_receiver does
    exact ⟨o, Receiver.turn_of_does ho, rfl, _, settle_actors_self here, rfl⟩

theorem Step.receiver_before {mover : Option Nat} {a b : Nat × Exchange} {k : Nat} {r : Receiver}
    (h : Step mover a b) (hk : b.2.HasReceiver k r) :
    a.2.HasReceiver k r ∨
      mover = some k ∧ ∃ r' o, a.2.HasReceiver k r' ∧ r'.Turn a.2.sockets o ∧ o.value = r := by
  cases h with
  | wait | cancel | carryOut => exact .inl hk
  | @move now x i c m here started does =>
    obtain ⟨rfl, hr⟩ | ⟨-, before⟩ := hk.settle here
    · cases hrole : c.role with
      | receiver r' =>
        rw [hrole] at does
        obtain ⟨o, ho, rfl⟩ := Role.does_receiver does
        exact .inr ⟨rfl, r', o, ⟨c, here, hrole⟩, Receiver.turn_of_does ho, Role.receiver.inj hr⟩
      | sender d =>
        rw [hrole] at does
        obtain ⟨o, -, rfl⟩ := Role.does_sender does
        cases hr
      | peer p =>
        rw [hrole] at does
        obtain rfl | ⟨_, o, -, rfl⟩ := Role.does_peer does <;> cases hr
    · exact .inl before

theorem Step.receiver_before_other {i k : Nat} {a b : Nat × Exchange} {r : Receiver}
    (h : Step (some i) a b) (ne : k ≠ i) (hk : b.2.HasReceiver k r) : a.2.HasReceiver k r := by
  obtain hk | ⟨mover, -⟩ := h.receiver_before hk
  · exact hk
  · exact absurd (Option.some.inj mover).symm ne

/-- Each lock that is held is locked once, and held by one receiver. -/
structure SoleHolders (x : Exchange) : Prop where
  once : ∀ {k r l}, x.HasReceiver k r → r.lock? = some l → x.sockets.locked.count l.entry = 1
  apart : ∀ {k k' r r' l l'}, x.HasReceiver k r → x.HasReceiver k' r' → k ≠ k' →
    r.lock? = some l → r'.lock? = some l' → l.entry ≠ l'.entry

/-- Nobody but receivers locks or releases anything. -/
theorem Step.locked_of_other {mover : Option Nat} {a b : Nat × Exchange} (h : Step mover a b)
    (wf : a.2.sockets.fs.WellFormed) (other : ∀ k r, mover = some k → ¬a.2.HasReceiver k r) :
    b.2.sockets.locked = a.2.sockets.locked := by
  cases h with
  | wait | cancel | carryOut => rfl
  | @move now x i c m here started does =>
    cases hrole : c.role with
    | receiver r => exact absurd ⟨c, here, hrole⟩ (other i r rfl)
    | sender d =>
      rw [hrole] at does
      obtain ⟨o, ho, rfl⟩ := Role.does_sender does
      exact (Sender.turn_of_does ho).sameFiles.locked
    | peer p =>
      rw [hrole] at does
      obtain rfl | ⟨grain, o, ho, rfl⟩ := Role.does_peer does
      · rfl
      · exact (Peer.move_disturbs wf ho).locked

/-- A turn of one receiver leaves the others what they hold. -/
theorem SoleHolders.step_turn {k : Nat} {a b : Nat × Exchange} {r : Receiver}
    (sole : a.2.SoleHolders) (h : Step (some k) a b) (hk : a.2.HasReceiver k r) :
    b.2.SoleHolders := by
  obtain ⟨o, turn, hsockets, hk'⟩ := h.turn hk
  have self : ∀ {l}, o.value.lock? = some l → b.2.sockets.locked.count l.entry = 1 :=
    hsockets ▸ turn.once_self fun mine => sole.once hk mine
  have others : ∀ {k' r' l'}, k' ≠ k → b.2.HasReceiver k' r' → r'.lock? = some l' →
      b.2.sockets.locked.count l'.entry = 1 ∧
        ∀ {l}, o.value.lock? = some l → l'.entry ≠ l.entry := by
    intro k' r' l' ne hr' yours
    have before := h.receiver_before_other ne hr'
    exact hsockets ▸ turn.once_other (sole.once before yours)
      fun mine => sole.apart before hk ne yours mine
  refine ⟨fun {k₁ r₁ l₁} h₁ yours => ?_, fun {k₁ k₂ r₁ r₂ l₁ l₂} h₁ h₂ ne first second => ?_⟩
  · by_cases same : k₁ = k
    · subst same
      obtain rfl := h₁.unique hk'
      exact self yours
    · exact (others same h₁ yours).1
  · by_cases same : k₁ = k
    · subst same
      obtain rfl := h₁.unique hk'
      exact ((others ne.symm h₂ second).2 first).symm
    · by_cases same' : k₂ = k
      · subst same'
        obtain rfl := h₂.unique hk'
        exact (others same h₁ first).2 second
      · exact sole.apart (h.receiver_before_other same h₁) (h.receiver_before_other same' h₂) ne
          first second

theorem SoleHolders.step {mover : Option Nat} {a b : Nat × Exchange} (sole : a.2.SoleHolders)
    (wf : a.2.sockets.fs.WellFormed) (h : Step mover a b) : b.2.SoleHolders := by
  by_cases mine : ∃ k r, mover = some k ∧ a.2.HasReceiver k r
  · obtain ⟨k, r, rfl, hk⟩ := mine
    exact sole.step_turn h hk
  · have before : ∀ {k r}, b.2.HasReceiver k r → a.2.HasReceiver k r := by
      intro k r hk
      obtain hk | ⟨hmover, r', -, hk', -⟩ := h.receiver_before hk
      · exact hk
      · exact absurd ⟨k, r', hmover, hk'⟩ mine
    have locked := h.locked_of_other wf fun k r hmover hk => mine ⟨k, r, hmover, hk⟩
    exact ⟨fun hk hl => locked ▸ sole.once (before hk) hl,
      fun hk hk' => sole.apart (before hk) (before hk')⟩

theorem Initial.holds_nothing {x : Exchange} (initial : x.Initial) {k : Nat} {r : Receiver}
    (hk : x.HasReceiver k r) : r.lock? = none := by
  obtain ⟨a, ha, hr⟩ := hk
  have phase := (initial.isNew a (List.mem_of_getElem? ha)).1
  rw [hr] at phase
  simp [Receiver.lock?, show r.phase = .starting from phase]

theorem Initial.soleHolders {x : Exchange} (initial : x.Initial) : x.SoleHolders := by
  refine ⟨fun hk held => ?_, fun hk _ _ held => ?_⟩
  · cases (initial.holds_nothing hk).symm.trans held
  · cases (initial.holds_nothing hk).symm.trans held

theorem SoleHolders.run {rule : Option Nat → Exchange → Exchange → Prop} {a b : Nat × Exchange}
    (sole : a.2.SoleHolders) (wf : a.2.sockets.fs.WellFormed) (run : Run rule a b) :
    b.2.SoleHolders := by
  induction run with
  | refl => exact sole
  | tail run h ih =>
    obtain ⟨mover, step, -⟩ := h
    exact ih.step ((onward_of_run wf run).fs.wellFormed wf) step

end Exchange

end EvidenceExchange
