import EvidenceExchange.Proofs.Disturbance
import EvidenceExchange.Proofs.Ownership

namespace EvidenceExchange

open Transport (lockPath)

/-- What stands at a path, and the lock file beside it, is the same in both trees. -/
structure FileSystem.Undisturbed (fs fs' : FileSystem) (path : String) : Prop where
  socket : ∀ e, fs.entryAt? path = some e → fs'.entryAt? path = some e
  lock : ∀ entry, fs.openFile (lockPath path) = .ok (entry, fs) →
    fs'.openFile (lockPath path) = .ok (entry, fs')

theorem FileSystem.Keeps.undisturbed {fs fs' : FileSystem} (wf : fs.WellFormed)
    (keeps : fs.Keeps fs' fun _ => True) (path : String) : fs.Undisturbed fs' path where
  socket _ h := keeps.entryAt? wf h trivial
  lock _ h := keeps.openFile wf (fun _ _ => trivial) h

theorem Tokens.isCancelled_of_subset {ts ts' : Tokens} (grows : ts.cancelled ⊆ ts'.cancelled)
    {t : Token} (h : ts.isCancelled t = true) : ts'.isCancelled t = true := by
  obtain ⟨i, hi, hc⟩ := List.any_eq_true.mp h
  exact List.any_eq_true.mpr ⟨i, hi, by simpa using grows (by simpa using hc)⟩

theorem Context.timerFired_of_le {d : Instant} {now later : Nat} (le : now ≤ later)
    (h : timerFired d now = true) : timerFired d later = true :=
  decide_eq_true ((of_decide_eq_true h).trans le)

theorem Context.live_of_later {c : Context} {ts ts' : Tokens} {now later : Nat}
    (le : now ≤ later) (grows : ts.cancelled ⊆ ts'.cancelled) (live : c.ended? ts' later = none) :
    c.ended? ts now = none := by
  rw [← pollDone_eq_ended?] at live ⊢
  have uncancelled : ts.isCancelled c.token = true → ts'.isCancelled c.token = true :=
    Tokens.isCancelled_of_subset grows
  unfold pollDone at live ⊢
  cases hd : c.deadline with
  | none =>
    simp only [hd] at live ⊢
    split at live
    next => cases live
    next h => rw [if_neg (mt uncancelled h)]
  | some d =>
    simp only [hd] at live ⊢
    split at live
    next => cases live
    next h =>
      split at live
      next => cases live
      next h' => rw [if_neg (mt uncancelled h), if_neg (mt (timerFired_of_le le) h')]

namespace Receiver

variable {r : Receiver} {ts : Tokens} {now : Nat} {s : Sockets}

/-- Whoever finds a path taken has come no further than to its lock. -/
def TurnedAway (r : Receiver) : Prop :=
  r.phase = .starting ∨ r.phase = .locking ∨ r.phase = .settled .aborted ∨
    r.phase = .settled (.returned (.error (.bindFailed r.path (Transport.heldElsewhere r.path))))

/-- The call has failed with the cause that ended its context. -/
def CutOff (r : Receiver) : Prop :=
  ∃ cause, r.phase = .settled (.returned (.error (.ofCancellation cause)))

theorem move_of_starting (phase : r.phase = .starting) (valid : r.config.validate = .ok ())
    (grain : Nat) :
    r.move grain ts now s =
      some (match r.context.ended? ts now with
        | none => ⟨r.goTo .locking, s, []⟩
        | some cause => ⟨r.finish (.error (.ofCancellation cause)), s, []⟩) := by
  simp only [move, phase, start, valid]
  split <;> simp_all only [refuse]

theorem move_of_locking {entry : Nat} (phase : r.phase = .locking) (held : s.Locks r.path entry)
    (grain : Nat) :
    r.move grain ts now s =
      some (match r.context.ended? ts now with
        | none => ⟨r.finish (.error (.bindFailed r.path (Transport.heldElsewhere r.path))), s, []⟩
        | some cause =>
          ⟨r.finish (.error (.ofCancellation cause)), s.detach (.openFile (lockPath r.path)), []⟩) := by
  simp only [move, phase, lock, Context.pollDone_eq_ended?, Transport.lock_of_locks held]
  split <;> simp_all only [refuse]

/-- Where the lock is held, who has come no further than to it comes no further, and fails with another
cause only if its context has ended. -/
theorem TurnedAway.does {o : Outcome Receiver} {entry : Nat} (away : r.TurnedAway)
    (valid : r.config.validate = .ok ()) (held : s.Locks r.path entry) (h : r.Does ts now s o) :
    o.value.TurnedAway ∨ r.context.ended? ts now ≠ none ∧ o.value.CutOff := by
  cases h with
  | drop live =>
    obtain phase | phase | phase | phase := away
    · simp [TurnedAway, abort, phase, goTo]
    · simp [TurnedAway, abort, phase, goTo]
    · simp [isOver, phase] at live
    · simp [isOver, phase] at live
  | move grain h =>
    obtain phase | phase | phase | phase := away
    · rw [move_of_starting phase valid grain] at h
      cases ended : r.context.ended? ts now with
      | none =>
        simp only [ended] at h
        cases h
        exact .inl (.inr (.inl rfl))
      | some cause =>
        simp only [ended] at h
        cases h
        exact .inr ⟨by simp, cause, rfl⟩
    · rw [move_of_locking phase held grain] at h
      cases ended : r.context.ended? ts now with
      | none =>
        simp only [ended] at h
        cases h
        exact .inl (.inr (.inr (.inr rfl)))
      | some cause =>
        simp only [ended] at h
        cases h
        exact .inr ⟨by simp, cause, rfl⟩
    · simp [move, phase] at h
    · simp [move, phase] at h

theorem CutOff.not_does {o : Outcome Receiver} (cut : r.CutOff) : ¬ r.Does ts now s o := by
  obtain ⟨cause, phase⟩ := cut
  rintro (⟨grain, h⟩ | live)
  · simp [move, phase] at h
  · simp [isOver, phase] at live

end Receiver

namespace Exchange

def HasReceiver (x : Exchange) (k : Nat) (r : Receiver) : Prop :=
  ∃ a, x.actors[k]? = some a ∧ a.role = .receiver r

/-- A receiver between its bind and the end of its listener. -/
def Listens (x : Exchange) (k : Nat) (r : Receiver) (l : SocketListener) : Prop :=
  x.HasReceiver k r ∧ ∃ deadline, r.phase = .accepting l deadline

/-- Neither a peer nor a call on files that has outlived its receive removes or replaces the socket of a
receiver that holds its lock, or the lock file. -/
def Peaceful (mover : Option Nat) (x y : Exchange) : Prop :=
  (∀ i a, mover = some i → x.actors[i]? = some a → ∃ p, a.role = .peer p) →
    ∀ k r l, x.HasReceiver k r → r.lock? = some l → x.sockets.fs.Undisturbed y.sockets.fs r.path

theorem Peaceful.refl (mover : Option Nat) (x : Exchange) : Peaceful mover x x :=
  fun _ _ _ _ _ _ => ⟨fun _ stands => stands, fun _ held => held⟩

theorem Peaceful.undisturbed_by_peer {x y : Exchange} {i : Nat} {a : Actor} {p : Peer}
    (peaceful : Peaceful (some i) x y) (here : x.actors[i]? = some a) (role : a.role = .peer p) :
    ∀ k r l, x.HasReceiver k r → r.lock? = some l → x.sockets.fs.Undisturbed y.sockets.fs r.path := by
  refine peaceful ?_
  rintro j b ⟨⟩ there
  obtain rfl := Option.some.inj (here.symm.trans there)
  exact ⟨p, role⟩

/-- Each receiver has what it holds, and no two hold one lock. -/
structure Exclusive (x : Exchange) : Prop where
  wellFormed : x.sockets.fs.WellFormed
  secure : ∀ {k r}, x.HasReceiver k r → r.Secure x.sockets
  apart : ∀ {k k' r r' l l'}, x.HasReceiver k r → x.HasReceiver k' r' → k ≠ k' →
    r.lock? = some l → r'.lock? = some l' → l.entry ≠ l'.entry

theorem HasReceiver.unique {x : Exchange} {k : Nat} {r r' : Receiver} (h : x.HasReceiver k r)
    (h' : x.HasReceiver k r') : r = r' := by
  obtain ⟨a, ha, hr⟩ := h
  obtain ⟨a', ha', hr'⟩ := h'
  obtain rfl := Option.some.inj (ha.symm.trans ha')
  exact Role.receiver.inj (hr.symm.trans hr')

theorem HasReceiver.settle {x : Exchange} {i k now : Nat} {a : Actor} {m : RoleMove} {r : Receiver}
    (here : x.actors[i]? = some a) (h : (x.settle i now a m).HasReceiver k r) :
    k = i ∧ m.role = .receiver r ∨ k ≠ i ∧ x.HasReceiver k r := by
  obtain ⟨b, hb, hr⟩ := h
  obtain ⟨rfl, rfl⟩ | ⟨ne, hb⟩ := settle_actors_cases here hb
  · exact .inl ⟨rfl, hr⟩
  · exact .inr ⟨ne, b, hb, hr⟩

theorem Step.receiver {mover : Option Nat} {a b : Nat × Exchange} {k : Nat} {r : Receiver}
    (h : Step mover a b) (hk : a.2.HasReceiver k r) :
    mover ≠ some k ∧ b.2.HasReceiver k r ∨
      mover = some k ∧ ∃ o, r.Does a.2.tokens a.1 a.2.sockets o ∧ b.2.HasReceiver k o.value := by
  obtain ⟨c, hc, hr⟩ := hk
  obtain ⟨ne, hc'⟩ | ⟨hmover, m, does, hc'⟩ := h.actor hc
  · exact .inl ⟨ne, c, hc', hr⟩
  · rw [hr] at does
    obtain ⟨o, ho, rfl⟩ := Role.does_receiver does
    exact .inr ⟨hmover, o, ho, _, hc', rfl⟩

theorem Step.ahead {mover : Option Nat} {a b : Nat × Exchange} {k : Nat} {r : Receiver}
    (h : Step mover a b) (hk : a.2.HasReceiver k r) : ∃ r', b.2.HasReceiver k r' ∧ r.Ahead r' := by
  obtain ⟨-, hk'⟩ | ⟨-, o, does, hk'⟩ := h.receiver hk
  · exact ⟨r, hk', .refl r⟩
  · exact ⟨o.value, hk', (Receiver.turn_of_does does).ahead⟩

theorem ahead_of_run {rule : Option Nat → Exchange → Exchange → Prop} {a b : Nat × Exchange}
    {k : Nat} {r : Receiver} (run : Run rule a b) (hk : a.2.HasReceiver k r) :
    ∃ r', b.2.HasReceiver k r' ∧ r.Ahead r' := by
  induction run with
  | refl => exact ⟨r, hk, .refl r⟩
  | tail _ h ih =>
    obtain ⟨mover, step, -⟩ := h
    obtain ⟨r', hk', ahead⟩ := ih
    obtain ⟨r'', hk'', ahead'⟩ := step.ahead hk'
    exact ⟨r'', hk'', ahead.trans ahead'⟩

theorem Initial.exclusive {x : Exchange} (h : x.Initial) : x.Exclusive := by
  have starting : ∀ {k r}, x.HasReceiver k r → r.phase = .starting := by
    rintro k r ⟨a, ha, hr⟩
    have := (h.isNew a (List.mem_of_getElem? ha)).1
    rwa [hr] at this
  refine ⟨h.wellFormed, fun hk => by simp [Receiver.Secure, starting hk], ?_⟩
  intro k k' r r' l l' hk _ _ hl
  simp [Receiver.lock?, starting hk] at hl

/-- What touches no receiver, no lock and no file that a receiver needs takes nothing from one. -/
theorem Exclusive.of_undisturbed {x y : Exchange} (inv : x.Exclusive)
    (before : ∀ {k r}, y.HasReceiver k r → x.HasReceiver k r) (wf : y.sockets.fs.WellFormed)
    (locked : y.sockets.locked = x.sockets.locked)
    (undisturbed : ∀ k r l, x.HasReceiver k r → r.lock? = some l →
      x.sockets.fs.Undisturbed y.sockets.fs r.path) : y.Exclusive := by
  refine ⟨wf, fun {k r} hk => ?_, fun hk hk' ne hl hl' => inv.apart (before hk) (before hk') ne hl hl'⟩
  have secure := inv.secure (before hk)
  refine secure.transfer (fun l hl => ?_) fun l e hl => (undisturbed k r l (before hk) hl).socket e
  have held := secure.locks hl
  exact ⟨locked ▸ held.held, (undisturbed k r l (before hk) hl).lock _ held.file⟩

/-- Who is no receiver takes nothing from one by keeping the peace. -/
theorem Exclusive.settle_other {x : Exchange} (inv : x.Exclusive) {i now : Nat} {a : Actor}
    {m : RoleMove} (here : x.actors[i]? = some a) (other : ∀ r, m.role ≠ .receiver r)
    (wf : m.sockets.fs.WellFormed) (locked : m.sockets.locked = x.sockets.locked)
    (undisturbed : ∀ k r l, x.HasReceiver k r → r.lock? = some l →
      x.sockets.fs.Undisturbed m.sockets.fs r.path) : (x.settle i now a m).Exclusive := by
  refine inv.of_undisturbed (fun {k r} hk => ?_) wf locked undisturbed
  obtain ⟨-, hr⟩ | ⟨-, hk⟩ := hk.settle here
  · exact absurd hr (other r)
  · exact hk

theorem Exclusive.foreign {x : Exchange} (inv : x.Exclusive) {i k : Nat} {r r' : Receiver}
    {l' : SocketLock} (hi : x.HasReceiver i r) (hk : x.HasReceiver k r') (ne : k ≠ i)
    (hl' : r'.lock? = some l') : some l'.entry ≠ r.lock?.map SocketLock.entry := by
  intro heq
  cases hl : r.lock? with
  | none => simp [hl] at heq
  | some l =>
    simp only [hl, Option.map_some, Option.some.injEq] at heq
    exact inv.apart hk hi ne hl' hl heq

/-- A receiver's turn leaves every other receiver what it holds. -/
theorem Exclusive.settle_receiver {x : Exchange} (inv : x.Exclusive) {i now : Nat} {a : Actor}
    {r : Receiver} {o : Outcome Receiver} (here : x.actors[i]? = some a) (role : a.role = .receiver r)
    (turn : r.Turn x.sockets o) : (x.settle i now a (Role.ofReceiver o)).Exclusive := by
  have owns := turn.owns inv.wellFormed (inv.secure ⟨a, here, role⟩)
  -- A lock that the mover takes in this turn was free, so nobody else holds it.
  have fresh : ∀ {k r' l l'}, k ≠ i → x.HasReceiver k r' → r'.lock? = some l' →
      o.value.lock? = some l → l'.entry ≠ l.entry := by
    intro k r' l l' ne hk hl' hl heq
    obtain hl | hfree := owns.lock l hl
    · exact inv.apart hk ⟨a, here, role⟩ ne hl' hl heq
    · exact hfree (heq ▸ ((inv.secure hk).locks hl').held)
  refine ⟨owns.spares.wellFormed, fun {k r'} hk => ?_, fun {k k' r₁ r₂ l l'} hk hk' ne hl hl' => ?_⟩
  · obtain ⟨-, hr⟩ | ⟨ne, hk⟩ := hk.settle here
    · obtain rfl := Role.receiver.inj hr
      exact owns.secure
    · exact (inv.secure hk).spared owns.spares fun l' hl' => inv.foreign ⟨a, here, role⟩ hk ne hl'
  · obtain ⟨hki, hr⟩ | ⟨hki, before⟩ := hk.settle here
    · obtain rfl := Role.receiver.inj hr
      obtain ⟨hki', -⟩ | ⟨hki', before'⟩ := hk'.settle here
      · exact absurd (hki.trans hki'.symm) ne
      · exact (fresh hki' before' hl' hl).symm
    · obtain ⟨-, hr'⟩ | ⟨-, before'⟩ := hk'.settle here
      · obtain rfl := Role.receiver.inj hr'
        exact fresh hki before hl hl'
      · exact inv.apart before before' ne hl hl'

theorem Exclusive.step {mover : Option Nat} {a b : Nat × Exchange} (inv : a.2.Exclusive)
    (h : Step mover a b) (peaceful : Peaceful mover a.2 b.2) : b.2.Exclusive := by
  cases h with
  | wait => exact inv
  | cancel => exact ⟨inv.wellFormed, inv.secure, inv.apart⟩
  | @carryOut now x call =>
    have onward := FileSystem.Onward.call x.sockets.fs call
    exact inv.of_undisturbed id (onward.wellFormed inv.wellFormed) rfl
      (peaceful fun i a none => by cases none)
  | @move now x i c m here started does =>
    cases hrole : c.role with
    | receiver r =>
      rw [hrole] at does
      obtain ⟨o, ho, rfl⟩ := Role.does_receiver does
      exact inv.settle_receiver here hrole (Receiver.turn_of_does ho)
    | sender d =>
      rw [hrole] at does
      obtain ⟨o, ho, rfl⟩ := Role.does_sender does
      have same := (Sender.turn_of_does ho).sameFiles
      refine inv.settle_other here (by simp) (same.fs ▸ inv.wellFormed) same.locked ?_
      exact fun k r l _ _ => same.fs ▸ (FileSystem.Keeps.refl _).undisturbed inv.wellFormed r.path
    | peer p =>
      have undisturbed := peaceful.undisturbed_by_peer here hrole
      rw [hrole] at does
      obtain rfl | ⟨grain, o, ho, rfl⟩ := Role.does_peer does
      · exact inv.settle_other here (by simp) inv.wellFormed rfl undisturbed
      · have disturbs := Peer.move_disturbs inv.wellFormed ho
        exact inv.settle_other here (by simp) (disturbs.onward.wellFormed inv.wellFormed)
          disturbs.locked undisturbed

/-- What stands at the path of a receiver that holds its lock stays, whoever else moves. -/
theorem Exclusive.socket_stays {mover : Option Nat} {a b : Nat × Exchange} (inv : a.2.Exclusive)
    (h : Step mover a b) (peaceful : Peaceful mover a.2 b.2) {k : Nat} {r : Receiver}
    {l : SocketLock} {e : Entry} (hk : a.2.HasReceiver k r) (ne : mover ≠ some k)
    (hl : r.lock? = some l) (stands : a.2.sockets.fs.entryAt? r.path = some e) :
    b.2.sockets.fs.entryAt? r.path = some e := by
  cases h with
  | wait | cancel => exact stands
  | carryOut => exact (peaceful (fun i a none => by cases none) k r l hk hl).socket e stands
  | @move now x i c m here started does =>
    have hki : k ≠ i := fun heq => ne (congrArg some heq.symm)
    cases hrole : c.role with
    | receiver r' =>
      rw [hrole] at does
      obtain ⟨o, ho, rfl⟩ := Role.does_receiver does
      have owns := (Receiver.turn_of_does ho).owns inv.wellFormed (inv.secure ⟨c, here, hrole⟩)
      exact owns.spares.socket (inv.foreign ⟨c, here, hrole⟩ hk hki hl)
        ((inv.secure hk).locks hl) stands
    | sender d =>
      rw [hrole] at does
      obtain ⟨o, ho, rfl⟩ := Role.does_sender does
      exact (Sender.turn_of_does ho).sameFiles.fs ▸ stands
    | peer p => exact (peaceful.undisturbed_by_peer here hrole k r l hk hl).socket e stands

theorem Exclusive.run {a b : Nat × Exchange} (inv : a.2.Exclusive) (run : Run Peaceful a b) :
    b.2.Exclusive := by
  induction run with
  | refl => exact inv
  | tail _ h ih =>
    obtain ⟨mover, step, peaceful⟩ := h
    exact ih.step step peaceful

/-- No peer touches a file but by listening. -/
def Quiet (x : Exchange) : Prop :=
  ∀ (i : Nat) (a : Actor) (p : Peer), x.actors[i]? = some a → a.role = .peer p → p.Quiet

/-- No removal has outlived its receive. -/
def RemovesNothing (x : Exchange) : Prop := ∀ path, FileCall.unlink path ∉ x.sockets.detached

theorem Exclusive.peaceful_of_quiet {mover : Option Nat} {a b : Nat × Exchange}
    (inv : a.2.Exclusive) (quiet : a.2.Quiet) (nothing : a.2.RemovesNothing) (h : Step mover a b) :
    Peaceful mover a.2 b.2 ∧ b.2.Quiet := by
  have peaceful (keeps : a.2.sockets.fs.Keeps b.2.sockets.fs fun _ => True) : Peaceful mover a.2 b.2 :=
    fun _ _ r _ _ _ => keeps.undisturbed inv.wellFormed r.path
  cases h with
  | wait | cancel => exact ⟨peaceful (.refl _), quiet⟩
  | @carryOut now x call underWay =>
    refine ⟨peaceful ?_, quiet⟩
    cases call with
    | openFile path => exact FileSystem.keeps_openFile_call inv.wellFormed path
    | unlink path => exact absurd underWay (nothing path)
  | @move now x i c m here started does =>
    have own (notPeer : ∀ p, c.role ≠ .peer p) : Peaceful (some i) x (x.settle i now c m) := by
      intro foreign
      obtain ⟨p, hp⟩ := foreign i c rfl here
      exact absurd hp (notPeer p)
    have others : (∀ p, m.role = .peer p → p.Quiet) → (x.settle i now c m).Quiet := by
      intro mine k d p hd hp
      obtain ⟨-, rfl⟩ | ⟨-, hd⟩ := settle_actors_cases here hd
      · exact mine p hp
      · exact quiet k d p hd hp
    cases hrole : c.role with
    | receiver r =>
      rw [hrole] at does
      obtain ⟨o, -, rfl⟩ := Role.does_receiver does
      exact ⟨own (by simp [hrole]), others fun p hp => by cases hp⟩
    | sender d =>
      rw [hrole] at does
      obtain ⟨o, -, rfl⟩ := Role.does_sender does
      exact ⟨own (by simp [hrole]), others fun p hp => by cases hp⟩
    | peer p =>
      have hq := quiet i c p here hrole
      rw [hrole] at does
      obtain rfl | ⟨grain, o, ho, rfl⟩ := Role.does_peer does
      · exact ⟨peaceful (.refl _), others fun p' hp => by cases hp; exact hq⟩
      · obtain ⟨hq', keeps⟩ := (Peer.move_disturbs inv.wellFormed ho).quiet hq
        exact ⟨peaceful keeps, others fun p' hp => by cases hp; exact hq'⟩

/-- Peers that only connect, listen, write, read and close keep the peace in every run in which no removal
outlives its receive. -/
theorem run_peaceful_of_quiet {a b : Nat × Exchange} (run : Run (fun _ x _ => x.RemovesNothing) a b)
    (inv : a.2.Exclusive) (quiet : a.2.Quiet) : Run Peaceful a b ∧ b.2.Quiet := by
  induction run with
  | refl => exact ⟨.refl, quiet⟩
  | tail _ h ih =>
    obtain ⟨mover, step, nothing⟩ := h
    obtain ⟨run, quiet'⟩ := ih
    obtain ⟨peaceful, quiet''⟩ := (inv.run run).peaceful_of_quiet quiet' nothing step
    exact ⟨run.tail ⟨mover, step, peaceful⟩, quiet''⟩

theorem run_peaceful_of_clockwork {a : Nat × Exchange} (inv : a.2.Exclusive) (quiet : a.2.Quiet) (fuel : Nat)
    (nothing : ∀ n < fuel, (clockwork.run n a).2.sockets.detached = []) :
    Run Peaceful a (clockwork.run fuel a) ∧ (clockwork.run fuel a).2.Quiet :=
  run_peaceful_of_quiet (run_of_clockwork fuel a fun n lt path => by simp [nothing n lt]) inv quiet

theorem Listens.of_ahead {x y : Exchange} {k : Nat} {r r' : Receiver} {l l' : SocketListener}
    {r₂ : Receiver} (h : x.Listens k r l) (h₂ : y.Listens k r₂ l') (ahead : r.Ahead r')
    (ahead' : r'.Ahead r₂) : r'.path = r.path ∧ ∃ li deadline, r'.phase = .accepting li deadline := by
  obtain ⟨-, deadline, phase⟩ := h
  obtain ⟨-, deadline₂, phase₂⟩ := h₂
  obtain ⟨between, rfl, le⟩ := ahead
  obtain ⟨last, rfl, le'⟩ := ahead'
  obtain rfl : last = .accepting l' deadline₂ := phase₂
  rw [phase] at le
  refine ⟨rfl, ?_⟩
  cases between with
  | accepting li deadline => exact ⟨li, deadline, rfl⟩
  | _ => simp [Receiver.goTo, Receiver.Phase.rank] at le le'

/-- While one receiver listens, whoever begins at the same path gets no further than to the lock. -/
theorem turnedAway_of_run {a b : Nat × Exchange} {i j : Nat} {r r' r₂ : Receiver}
    {l l₂ : SocketListener} (run : Run Peaceful a b) (inv : a.2.Exclusive)
    (listens : a.2.Listens i r l) (rival : a.2.HasReceiver j r') (phase : r'.phase = .starting)
    (path : r'.path = r.path) (valid : r'.config.validate = .ok ()) (still : b.2.Listens i r₂ l₂) :
    ∃ r'', b.2.HasReceiver j r'' ∧ r'.Ahead r'' ∧
      (r''.TurnedAway ∨ r'.context.ended? b.2.tokens b.1 ≠ none ∧ r''.CutOff) := by
  induction run generalizing r₂ l₂ with
  | refl => exact ⟨r', rival, .refl r', .inl (.inl phase)⟩
  | @tail c d run h ih =>
    obtain ⟨mover, step, -⟩ := h
    obtain ⟨r₁, hi, ahead⟩ := ahead_of_run run listens.1
    obtain ⟨r₃, hi', ahead'⟩ := step.ahead hi
    obtain rfl := hi'.unique still.1
    obtain ⟨hpath, l₁, deadline, hphase⟩ := Listens.of_ahead listens still ahead ahead'
    have stays : r'.context.ended? c.2.tokens c.1 ≠ none → r'.context.ended? d.2.tokens d.1 ≠ none :=
      mt (Context.live_of_later step.later.1 step.later.2)
    obtain ⟨r'', hj, ahead'', away⟩ := ih ⟨hi, deadline, hphase⟩
    obtain ⟨-, hj'⟩ | ⟨-, o, does, hj'⟩ := step.receiver hj
    · exact ⟨r'', hj', ahead'', away.imp_right (And.imp_left stays)⟩
    · obtain away | ⟨-, cut⟩ := away
      · have held := ((inv.run run).secure hi).locks (l := l₁.lock) (by simp [Receiver.lock?, hphase])
        refine ⟨o.value, hj', ahead''.trans (Receiver.turn_of_does does).ahead, ?_⟩
        obtain ⟨_, rfl, -⟩ := ahead''
        rw [hpath, ← path] at held
        exact (away.does valid held does).imp_right (And.imp_left stays)
      · exact absurd does cut.not_does

/-- One receiver at a time is between its bind and the end of its listener at what a path leads to, and
it holds the lock of the path and has its socket there. A receiver that begins there meanwhile, with
a valid configuration, gets no further than to the lock, and fails: it finds the path held if its context
is live when it asks for the lock. Whoever moves, the socket stays. Peers that only connect, listen, write,
read and close do not disturb this, and so nobody does as long as no removal outlives its receive. -/
theorem rendezvous_path_exclusive {t now : Nat} {start x : Exchange} (initial : start.Initial)
    (run : Run Peaceful (t, start) (now, x)) :
    (∀ {i j r r' l l'}, x.Listens i r l → x.Listens j r' l' →
      x.sockets.fs.entryAt? l.path = x.sockets.fs.entryAt? l'.path → i = j) ∧
    (∀ {i r l}, x.Listens i r l →
      l.path = r.path ∧ x.sockets.Locks r.path l.lock.entry ∧ l.Stands x.sockets) ∧
    (∀ {i j r r' l}, x.Listens i r l → x.HasReceiver j r' → r'.phase = .starting →
      r'.path = r.path → r'.config.validate = .ok () →
      ∀ {later y r₂ l₂}, Run Peaceful (now, x) (later, y) → y.Listens i r₂ l₂ →
        ∃ r'', y.HasReceiver j r'' ∧ r''.config = r'.config ∧ r''.context = r'.context ∧
          (r''.TurnedAway ∨ r'.context.ended? y.tokens later ≠ none ∧ r''.CutOff) ∧
          (∀ grain, r''.phase = .starting →
            r''.move grain y.tokens later y.sockets =
              some (match r'.context.ended? y.tokens later with
                | none => ⟨r''.goTo .locking, y.sockets, []⟩
                | some cause => ⟨r''.finish (.error (.ofCancellation cause)), y.sockets, []⟩)) ∧
          (∀ grain, r''.phase = .locking →
            r''.move grain y.tokens later y.sockets =
              some (match r'.context.ended? y.tokens later with
                | none =>
                  ⟨r''.finish (.error (.bindFailed r.path (Transport.heldElsewhere r.path))), y.sockets, []⟩
                | some cause =>
                  ⟨r''.finish (.error (.ofCancellation cause)),
                    y.sockets.detach (.openFile (lockPath r.path)), []⟩))) ∧
    (∀ {i r l mover later y}, x.Listens i r l → Step mover (now, x) (later, y) →
      Peaceful mover x y → mover ≠ some i →
      y.Listens i r l ∧ y.sockets.fs.entryAt? l.path = x.sockets.fs.entryAt? l.path) ∧
    (x.Quiet → ∀ {b}, Run (fun _ y _ => y.RemovesNothing) (now, x) b → Run Peaceful (now, x) b) := by
  have inv : x.Exclusive := initial.exclusive.run run
  have owns : ∀ {x : Exchange} {i r l}, x.Exclusive → x.Listens i r l →
      l.path = r.path ∧ x.sockets.Locks r.path l.lock.entry ∧ l.Stands x.sockets := by
    rintro x i r l inv ⟨hi, deadline, phase⟩
    have secure := inv.secure hi
    simpa only [Receiver.Secure, phase] using secure
  refine ⟨fun {i j r r' l l'} hi hj same => ?_, owns inv, ?_, ?_,
    fun quiet b further => (run_peaceful_of_quiet further inv quiet).1⟩
  · obtain ⟨hpath, held, e, he, -⟩ := owns inv hi
    obtain ⟨hpath', held', -⟩ := owns inv hj
    by_contra ne
    obtain ⟨hi, _, phase⟩ := hi
    obtain ⟨hj, _, phase'⟩ := hj
    rw [← hpath] at held
    rw [← hpath'] at held'
    have mine : r.lock? = some l.lock := by simp [Receiver.lock?, phase]
    have yours : r'.lock? = some l'.lock := by simp [Receiver.lock?, phase']
    refine inv.apart hi hj ne mine yours ?_
    exact FileSystem.lock_file_unique he (same ▸ he) held.file held'.file
  · intro i j r r' l hi hj phase path valid later y r₂ l₂ run' still
    obtain ⟨r'', hj', ahead, away⟩ := turnedAway_of_run run' inv hi hj phase path valid still
    obtain ⟨r₁, hi₁, ahead₁⟩ := ahead_of_run run' hi.1
    obtain rfl := hi₁.unique still.1
    obtain ⟨_, held, -⟩ := owns (inv.run run') still
    obtain ⟨_, rfl, -⟩ := ahead₁
    obtain ⟨reached, rfl, -⟩ := ahead
    refine ⟨_, hj', rfl, rfl, away, fun grain h => ?_, fun grain h => ?_⟩
    · exact Receiver.move_of_starting h valid grain
    · have moves : (r'.goTo reached).move grain y.tokens later y.sockets = _ :=
        Receiver.move_of_locking h (path ▸ held) grain
      have hpath : (r'.goTo reached).path = r.path := path
      rwa [hpath] at moves
  · rintro i r l mover later y ⟨hi, deadline, phase⟩ step peaceful ne
    obtain ⟨hpath, -, e, he, -⟩ := owns inv ⟨hi, deadline, phase⟩
    obtain ⟨-, hi'⟩ | ⟨hmover, -⟩ := step.receiver hi
    · have hl : r.lock? = some l.lock := by simp [Receiver.lock?, phase]
      have stays := inv.socket_stays step peaceful hi ne hl (hpath ▸ he)
      exact ⟨⟨hi', deadline, phase⟩, by rw [he, hpath, stays]⟩
    · exact absurd hmover ne

/-- A receiver at the path "s" that has not begun. -/
def receiverOf (config : ReceiverConfig → ReceiverConfig) (t : Token) : Receiver :=
  ⟨config (.withSocket "s"), .binary, .ofToken t, .starting⟩

theorem HasReceiver.of_roles {x : Exchange} {k : Nat} {r : Receiver} {roles : List Role}
    (same : x.actors.map Actor.role = roles) (here : roles[k]? = some (.receiver r)) :
    x.HasReceiver k r := by
  rw [← same, List.getElem?_map] at here
  exact Option.map_eq_some_iff.mp here

/-- Two receivers with one path, the second a little later, and nothing else. -/
def twoReceivers : Exchange where
  root := ⟨0, []⟩
  tokens := ⟨1, []⟩
  cancels := []
  sockets := .empty
  actors := [0, 1].map fun start => ⟨start, .receiver (receiverOf id ⟨0, []⟩), none, [], none⟩
  turn := none

/-- The first of them listens after three moves, and three steps later the second one has failed. -/
theorem rendezvous_path_exclusive_two_receivers :
    ∃ a b r r' l, Run Peaceful (0, twoReceivers) a ∧ a.2.Listens 0 r l ∧ l.Stands a.2.sockets ∧
      Run Peaceful a b ∧ b.2.HasReceiver 1 r' ∧ r'.TurnedAway ∧ r'.isOver = true := by
  have isNew : ∀ a ∈ twoReceivers.actors, a.role.IsNew ∧ a.log = [] := by
    intro a ha
    obtain ⟨start, -, rfl⟩ := List.mem_map.mp ha
    exact ⟨rfl, rfl⟩
  have initial : twoReceivers.Initial := ⟨FileSystem.wellFormed_empty, rfl, rfl, isNew⟩
  have quiet : twoReceivers.Quiet := by
    intro i a p ha hp
    obtain ⟨start, -, rfl⟩ := List.mem_map.mp (List.mem_of_getElem? ha)
    cases hp
  let li : SocketListener := ⟨"s", 2, ⟨"s.lock", 1⟩⟩
  let first : Receiver := (receiverOf id ⟨0, []⟩).goTo (.accepting li ⟨60000000000⟩)
  let second : Receiver := (receiverOf id ⟨0, []⟩).finish
    (.error (.bindFailed "s" (Transport.heldElsewhere "s")))
  obtain ⟨x, hx, roles⟩ : ∃ x, clockwork.run 3 (0, twoReceivers) = (0, x) ∧
      x.actors.map Actor.role = [.receiver first, .receiver (receiverOf id ⟨0, []⟩)] := ⟨_, rfl, rfl⟩
  obtain ⟨y, hy, roles', nothing⟩ : ∃ y, clockwork.run 2 (1, x) = (1, y) ∧
      y.actors.map Actor.role = [.receiver first, .receiver second] ∧
      ∀ n < 2, (clockwork.run n (1, x)).2.sockets.detached = [] := by
    obtain rfl : (clockwork.run 3 (0, twoReceivers)).2 = x := congrArg Prod.snd hx
    exact ⟨_, rfl, rfl, by decide⟩
  have ran := run_peaceful_of_clockwork (a := (0, twoReceivers)) initial.exclusive quiet 3 (by decide)
  rw [hx] at ran
  have waited : Run Peaceful (0, x) (1, x) := .single ⟨none, .wait (Nat.zero_le 1), .refl none x⟩
  have further := run_peaceful_of_clockwork (a := (1, x)) (initial.exclusive.run (ran.1.trans waited)) ran.2 2
    nothing
  rw [hy] at further
  have listens : x.Listens 0 first li := ⟨.of_roles roles rfl, _, rfl⟩
  obtain ⟨-, owns, rival, -⟩ := rendezvous_path_exclusive initial ran.1
  obtain ⟨r', hr', -, -, away, -⟩ := rival listens (.of_roles (k := 1) roles rfl) rfl rfl rfl
    (waited.trans further.1) ⟨.of_roles roles' rfl, _, rfl⟩
  obtain rfl := hr'.unique (.of_roles roles' rfl)
  refine ⟨_, _, _, _, _, ran.1, listens, (owns listens).2.2, waited.trans further.1, hr', ?_, rfl⟩
  obtain away | ⟨-, cause, phase⟩ := away
  · exact away
  · cases cause <;> cases phase

/-- One receiver listens when a second one begins, and at that instant every context is cancelled. -/
def cancelledRival : Exchange where
  root := ⟨0, []⟩
  tokens := ⟨3, []⟩
  cancels := []
  sockets := .empty
  actors :=
    [⟨0, .receiver (receiverOf (fun c => { c with timeout := .ofSecs 1 }) ⟨1, [0]⟩), none, [], none⟩,
      ⟨10, .receiver (receiverOf id ⟨2, [0]⟩), none, [], none⟩,
      ⟨0, .peer (.new [⟨10, .cancelAll⟩]), none, [], none⟩]
  turn := none

/-- A receiver that reclaims its path and has not begun. -/
def reclaimer (t : Token) : Receiver := receiverOf (fun c => { c with reclaimStaleSocket := true }) t

/-- Two receivers that reclaim the path, where a socket has been left. -/
def twoReclaimers : Exchange where
  root := ⟨0, []⟩
  tokens := ⟨3, []⟩
  cancels := []
  sockets := (Sockets.empty.applyFileStep (.staleSocket "s")).2
  actors := [0, 1].map fun start => ⟨start, .receiver (reclaimer ⟨start + 1, [0]⟩), none, [], none⟩
  turn := none

/-- The first of them has been cut off in its removal, and the second has not begun. -/
def reclaimerCutOff : Exchange :=
  { twoReclaimers with
    tokens := ⟨3, [1]⟩,
    sockets :=
      { Sockets.empty with
        fs := ⟨[⟨1, 0, "s", .socket⟩, ⟨2, 0, "s.lock", .file⟩], 3⟩, detached := [.unlink "s"] },
    actors :=
      [⟨0, .receiver ((reclaimer ⟨1, [0]⟩).finish (.error (.ofCancellation .cancelled))), none,
          [.lockAcquired "s.lock"], some 0⟩,
        ⟨1, .receiver (reclaimer ⟨2, [0]⟩), none, [], none⟩] }

theorem run_reclaimerCutOff : Run (fun _ _ _ => True) (0, twoReclaimers) (0, reclaimerCutOff) := by
  obtain ⟨x, hx, hcut⟩ : ∃ x, clockwork.run 3 (0, twoReclaimers) = (0, x) ∧
      clockwork.run 1 (0, { x with tokens := x.tokens.cancel ⟨1, [0]⟩, cancels := [] }) =
        (0, reclaimerCutOff) := ⟨_, rfl, rfl⟩
  have begun := run_of_reaches (clockwork.reaches_run 3 (0, twoReclaimers))
  have cutOff := run_of_reaches
    (clockwork.reaches_run 1 (0, { x with tokens := x.tokens.cancel ⟨1, [0]⟩, cancels := [] }))
  rw [hx] at begun
  rw [hcut] at cutOff
  exact (begun.tail ⟨none, .cancel ⟨1, [0]⟩ [], trivial⟩).trans cutOff

/-- Also where there are only receivers may a listener lose its socket: to a removal that a receive has
begun under the lock, and left under way when it was cut off. -/
theorem late_removal_takes_socket :
    ∃ a b : Nat × Exchange, Run (fun _ _ _ => True) (0, twoReclaimers) a ∧ Step none a b ∧
      (∀ c ∈ twoReclaimers.actors, ∃ r, c.role = .receiver r) ∧
      ∃ r l, a.2.Listens 1 r l ∧ l.Stands a.2.sockets ∧ b.2.Listens 1 r l ∧ ¬ l.Stands b.2.sockets := by
  let li : SocketListener := ⟨"s", 3, ⟨"s.lock", 2⟩⟩
  let listener : Receiver := (reclaimer ⟨2, [0]⟩).goTo (.accepting li ⟨60001000000⟩)
  obtain ⟨y, hy, listens, underWay, files⟩ : ∃ y, clockwork.run 6 (1, reclaimerCutOff) = (1, y) ∧
      y.Listens 1 listener li ∧ y.sockets.detached = [.unlink "s"] ∧
      y.sockets.fs = ⟨[⟨2, 0, "s.lock", .file⟩, ⟨3, 0, "s", .socket⟩], 4⟩ :=
    ⟨_, rfl, ⟨⟨_, rfl, rfl⟩, _, rfl⟩, rfl, rfl⟩
  have stands : li.Stands y.sockets := by
    refine ⟨⟨3, 0, "s", .socket⟩, ?_, rfl, rfl⟩
    rw [files]
    decide
  have gone : (y.sockets.carryOut (.unlink "s")).fs.entryAt? "s" = none := by
    simp only [Sockets.carryOut, files]
    decide
  have bound := run_of_reaches (clockwork.reaches_run 6 (1, reclaimerCutOff))
  rw [hy] at bound
  have waited : Step none (0, reclaimerCutOff) (1, reclaimerCutOff) := .wait (Nat.zero_le 1)
  refine ⟨(1, y), _, run_reclaimerCutOff.trans (.head ⟨none, waited, trivial⟩ bound),
    .carryOut (underWay ▸ List.mem_singleton_self _), fun c hc => ?_, listener, li, listens, stands, listens, ?_⟩
  · obtain ⟨start, -, rfl⟩ := List.mem_map.mp hc
    exact ⟨_, rfl⟩
  · rintro ⟨e, standing, -⟩
    cases gone.symm.trans standing

/-- A receiver whose context is live when it begins at a path where another one listens may be told of the
end of its context, and a listener may lose its socket to a removal that was left under way. -/
theorem rival_cancelled_and_socket_removed_late :
    (∃ x y : Nat × Exchange, Run Peaceful (0, cancelledRival) x ∧ Run Peaceful x y ∧
      (∃ r l, x.2.Listens 0 r l ∧ r.path = "s") ∧
      (∃ r, x.2.HasReceiver 1 r ∧ r.phase = .starting ∧ r.path = "s" ∧ r.config.validate = .ok () ∧
        r.context.ended? x.2.tokens x.1 = none ∧ 10 ≤ x.1) ∧
      ∃ r, y.2.HasReceiver 1 r ∧ r.phase = .settled (.returned (.error (.ofCancellation .cancelled)))) ∧
    ∃ a b : Nat × Exchange, Run (fun _ _ _ => True) (0, twoReclaimers) a ∧ Step none a b ∧
      (∀ c ∈ twoReclaimers.actors, ∃ r, c.role = .receiver r) ∧
      ∃ r l, a.2.Listens 1 r l ∧ l.Stands a.2.sockets ∧ b.2.Listens 1 r l ∧ ¬ l.Stands b.2.sockets := by
  refine ⟨?_, late_removal_takes_socket⟩
  have isNew : ∀ a ∈ cancelledRival.actors, a.role.IsNew ∧ a.log = [] := by
    simp [cancelledRival, receiverOf, Role.IsNew]
  have initial : cancelledRival.Initial := ⟨FileSystem.wellFormed_empty, rfl, rfl, isNew⟩
  have quiet : cancelledRival.Quiet := by
    intro i a p ha hp
    have here := List.mem_of_getElem? ha
    simp only [cancelledRival, List.mem_cons, List.not_mem_nil, or_false] at here
    obtain rfl | rfl | rfl := here <;> cases hp
    simp [Peer.Quiet, Peer.new]
  let listener : Receiver := receiverOf (fun c => { c with timeout := .ofSecs 1 }) ⟨1, [0]⟩
  let rival : Receiver := receiverOf id ⟨2, [0]⟩
  let li : SocketListener := ⟨"s", 2, ⟨"s.lock", 1⟩⟩
  let cause : Except ExchangeError Evidence.Bundle := .error (.ofCancellation .cancelled)
  obtain ⟨x, hx, roles⟩ : ∃ x, clockwork.run 3 (0, cancelledRival) = (0, x) ∧
      x.actors.map Actor.role =
        [.receiver (listener.goTo (.accepting li ⟨1000000000⟩)), .receiver rival,
          .peer (.new [⟨10, .cancelAll⟩])] := ⟨_, rfl, rfl⟩
  obtain ⟨y, p, hy, roles', nothing, live⟩ : ∃ y p, clockwork.run 5 (10, x) = (10, y) ∧
      y.actors.map Actor.role =
        [.receiver (listener.finish cause), .receiver (rival.finish cause), .peer p] ∧
      (∀ n < 5, (clockwork.run n (10, x)).2.sockets.detached = []) ∧
      rival.context.ended? x.tokens 10 = none := by
    obtain rfl : (clockwork.run 3 (0, cancelledRival)).2 = x := congrArg Prod.snd hx
    exact ⟨_, _, rfl, rfl, by decide, rfl⟩
  have ran := run_peaceful_of_clockwork (a := (0, cancelledRival)) initial.exclusive quiet 3 (by decide)
  rw [hx] at ran
  have waited : Run Peaceful (0, x) (10, x) := .single ⟨none, .wait (Nat.zero_le 10), .refl none x⟩
  have further := run_peaceful_of_clockwork (a := (10, x)) (initial.exclusive.run (ran.1.trans waited)) ran.2 5
    nothing
  rw [hy] at further
  exact ⟨_, _, ran.1.trans waited, further.1, ⟨_, li, ⟨.of_roles roles rfl, _, rfl⟩, rfl⟩,
    ⟨rival, .of_roles roles rfl, rfl, rfl, rfl, live, le_rfl⟩, _, .of_roles roles' rfl, rfl⟩

end Exchange

end EvidenceExchange
