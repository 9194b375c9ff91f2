import EvidenceExchange.Proofs.Privacy

namespace EvidenceExchange

open FileSystem (Spot)
open Transport (lockPath)

/-- A path that can be locked and then bound. -/
def Sockets.Free (s : Sockets) (path : String) : Prop :=
  path ≠ "" ∧ ∃ l li, (Transport.lock path s).value = .ok l ∧
    (Transport.listen path l (Transport.lock path s).sockets).value = .ok li

namespace Sockets

variable {path : String} {p : Spot} {s : Sockets}

theorem Ready.lock (ready : s.Ready path p) : ∃ l file,
    (Transport.lock path s).value = .ok l ∧
      (Transport.lock path s).sockets.Kept path p file (some (.lock l)) := by
  cases ready with
  | untaken untaken =>
    obtain ⟨l, hl, kept⟩ := untaken.lock
    exact ⟨l, _, hl, kept⟩
  | kept kept =>
    obtain ⟨l, hl, kept⟩ := kept.lock
    exact ⟨l, _, hl, kept⟩

theorem Ready.free (ready : s.Ready path p) : s.Free path := by
  obtain ⟨l, file, hl, kept⟩ := ready.lock
  obtain ⟨li, hli⟩ := kept.exists_listener
  exact ⟨kept.site.path_ne_empty, l, li, hl, hli⟩

/-- Before the lock file of a free path is made, the site is as it is afterwards. -/
theorem Free.ready (free : s.Free path) (wf : s.fs.WellFormed) (made : s.LocksMade) :
    ∃ p, s.Ready path p := by
  obtain ⟨named, l, li, locked, bound⟩ := free
  obtain ⟨fs, opened, unlocked, taken⟩ := Transport.lock_eq_ok locked
  rw [taken] at bound
  obtain ⟨fs', bind, -⟩ := Transport.listen_eq_ok bound
  obtain ⟨wf', -, again⟩ := FileSystem.openFile_eq_ok wf opened
  obtain ⟨p, site, vacant, -⟩ := FileSystem.Site.of_bindEntry wf' named bind
  refine ⟨p, ?_⟩
  obtain ⟨directory, name, unmade, -, rfl⟩ | rfl := FileSystem.openFile_cases opened
  · have apart : Spot.mk directory name ≠ p := by
      rintro rfl
      rw [FileSystem.standing_create_self s.fs ⟨directory, name⟩] at vacant
      simp at vacant
    have spot := FileSystem.spot?_of_create_file wf site.spot
    rw [FileSystem.standing_create_other apart] at vacant
    exact .untaken ⟨⟨wf, spot, site.plain, site.address⟩, vacant, ⟨_, _, unmade, apart⟩, made⟩
  · exact .kept (.free site again vacant (List.count_eq_zero_of_not_mem unlocked))

end Sockets

namespace Receiver

/-- The moves of a receiver that nobody interrupts. -/
def Proceeds (ts : Tokens) (now : Nat) : Receiver × Sockets → Receiver × Sockets → Prop :=
  Relation.ReflTransGen fun a b =>
    ∃ grain o, a.1.move grain ts now a.2 = some o ∧ b = (o.value, o.sockets)

/-- A receiver that comes to bind its path, and succeeds. -/
def CanBind (r : Receiver) (ts : Tokens) (now : Nat) (s : Sockets) : Prop :=
  ∃ r' s' l li, Proceeds ts now (r, s) (r', s') ∧ r'.phase = .binding l ∧
    (Transport.listen r.path l s').value = .ok li

theorem move_of_reclaiming {r : Receiver} {ts : Tokens} {now : Nat} {s : Sockets} {l : SocketLock}
    (phase : r.phase = .reclaiming l) (live : r.context.ended? ts now = none)
    (clear : Transport.hasSocket r.path s = false) (grain : Nat) :
    r.move grain ts now s = some ⟨r.goTo (.binding l), s, []⟩ := by
  simp [move, phase, reclaim, Context.pollDone_eq_ended?, live, clear]

theorem canBind_of_ready {r : Receiver} {ts : Tokens} {now : Nat} {s : Sockets} {p : Spot}
    (ready : s.Ready r.path p) (phase : r.phase = .starting)
    (valid : r.config.validate = .ok ()) (live : r.context.ended? ts now = none) :
    r.CanBind ts now s := by
  obtain ⟨l, file, hl, kept⟩ := ready.lock
  obtain ⟨li, hli⟩ := kept.exists_listener
  have starts : r.move 0 ts now s = some ⟨r.goTo .locking, s, []⟩ := by
    rw [move_of_starting phase valid, live]
  have locks : (r.goTo .locking).move 0 ts now s =
      some ⟨r.goTo (if r.config.reclaimStaleSocket then .reclaiming l else .binding l),
        (Transport.lock r.path s).sockets, (Transport.lock r.path s).log⟩ := by
    simp only [move, goTo, lock, path, Context.pollDone_eq_ended?, live] at hl ⊢
    rw [hl]
    rfl
  have locked : Proceeds ts now (r, s)
      (r.goTo (if r.config.reclaimStaleSocket then .reclaiming l else .binding l),
        (Transport.lock r.path s).sockets) :=
    .head ⟨0, _, starts, rfl⟩ (.single ⟨0, _, locks, rfl⟩)
  split at locked
  next =>
    have looks : (r.goTo (.reclaiming l)).move 0 ts now (Transport.lock r.path s).sockets =
        some ⟨r.goTo (.binding l), (Transport.lock r.path s).sockets, []⟩ :=
      move_of_reclaiming (r := r.goTo (.reclaiming l)) rfl live kept.hasSocket 0
    exact ⟨_, _, l, li, locked.tail ⟨0, _, looks, rfl⟩, rfl, hli⟩
  next => exact ⟨_, _, l, li, locked, rfl, hli⟩

theorem Turn.over_of_unnamed {r : Receiver} {s : Sockets} {o : Outcome Receiver} (h : r.Turn s o)
    (unnamed : r.path = "") (before : r.phase = .starting ∨ r.isOver = true) :
    o.value.isOver = true := by
  cases h with
  | start _ valid => exact absurd unnamed (path_ne_empty valid)
  | lock phase | look phase | remove phase | reclaimed phase | bind phase | accept phase | read phase =>
    simp [phase, isOver] at before
  | quit | quitLocking | lockFails | release | quitRemoving | bindFails | overflow | giveUp | hangUp
  | readFails | receive => rfl

end Receiver

namespace Exchange

/-- The step in which a receiver is bound, while the file that it has locked is still there. -/
inductive Binds (path : String) (k : Nat) (li : SocketListener) :
    Nat × Exchange → Nat × Exchange → Prop
  | move {now x a r l} (here : x.actors[k]? = some a) (role : a.role = .receiver r)
      (phase : r.phase = .binding l) (entitled : r.Entitled path x.sockets)
      (bound : (Transport.listen path l x.sockets).value = .ok li) :
      Binds path k li (now, x) (now, x.settle k now a (Role.ofReceiver (r.bind l now x.sockets)))

/-- Of all that a receiver made and held at its path, nothing is left but the lock file. If a socket
stands there, or the file is locked, that is another receiver's doing. -/
structure Cleared (path : String) (k : Nat) (li : SocketListener) (x : Exchange) : Prop where
  released : ∃ r, x.HasReceiver k r ∧ r.lock? = none
  removed : ∀ e ∈ x.sockets.fs.entries, e.id ≠ li.entry
  vacant : ∀ e, x.sockets.fs.entryAt? path = some e → ∃ k' r li', r.path = path ∧
    x.Listens k' r li' ∧ e.id = li'.entry
  lockFile : x.sockets.fs.openFile (lockPath path) = .ok (li.lock.entry, x.sockets.fs)
  unlocked : li.lock.entry ∈ x.sockets.locked → ∃ k' r l, x.HasReceiver k' r ∧ r.path = path ∧
    r.lock? = some l ∧ l.entry = li.lock.entry

/-- A receiver that listens, or has done so. -/
inductive Attends (path : String) (k : Nat) (li : SocketListener) (x : Exchange) : Prop
  | listens {r} (mine : r.path = path) (h : x.Listens k r li) : Attends path k li x
  | past {r} (here : x.HasReceiver k r) (reached : 7 ≤ r.phase.rank)
      (gone : x.sockets.fs.Gone li.entry) : Attends path k li x

variable {path : String} {p : Spot} {file k : Nat} {li : SocketListener}

theorem Step.unnamed {mover : Option Nat} {a b : Nat × Exchange} (h : Step mover a b)
    (before : ∀ {r}, a.2.HasReceiver k r → r.path = "" → r.phase = .starting ∨ r.isOver = true)
    {r : Receiver} (hk : b.2.HasReceiver k r) (unnamed : r.path = "") :
    r.phase = .starting ∨ r.isOver = true := by
  obtain hk | ⟨-, r', o, hk', turn, rfl⟩ := h.receiver_before hk
  · exact before hk unnamed
  · have unnamed' := turn.path_eq.symm.trans unnamed
    exact .inr (turn.over_of_unnamed unnamed' (before hk' unnamed'))

/-- No receiver without a path gets anywhere. -/
theorem Initial.unnamed {rule : Option Nat → Exchange → Exchange → Prop} {a b : Nat × Exchange}
    (initial : a.2.Initial) (run : Run rule a b) {r : Receiver} (hk : b.2.HasReceiver k r)
    (unnamed : r.path = "") : r.phase = .starting ∨ r.isOver = true := by
  induction run generalizing r with
  | refl =>
    obtain ⟨c, hc, hr⟩ := hk
    have phase := (initial.isNew c (List.mem_of_getElem? hc)).1
    rw [hr] at phase
    exact .inl phase
  | tail _ h ih =>
    obtain ⟨mover, step, -⟩ := h
    exact step.unnamed ih hk unnamed

theorem Binds.attends {a b : Nat × Exchange} (h : Binds path k li a b) (named : path ≠ "")
    (wf : a.2.sockets.fs.WellFormed) (sole : a.2.SoleHolders) :
    b.2.Attends path k li ∧ ∃ p, b.2.Tended path p li.lock.entry := by
  cases h with
  | @move now x a r l here role phase entitled bound =>
    have hr : x.HasReceiver k r := ⟨a, here, role⟩
    have holds : r.lock? = some l := by simp [Receiver.lock?, phase]
    obtain ⟨p, kept⟩ := sole.kept_of_listen wf named hr entitled holds bound
    obtain ⟨rfl, -⟩ := entitled
    obtain ⟨-, -, -, rfl, -⟩ := Transport.listen_eq_ok bound
    have others : ∀ {m : RoleMove} {k' r'}, k' ≠ k → (x.settle k now a m).HasReceiver k' r' →
        r'.path = r.path → r'.Lacks li.lock.entry := by
      intro m k' r' ne hk' _
      obtain ⟨same, -⟩ | ⟨-, before⟩ := hk'.settle here
      · exact absurd same ne
      · exact sole.lacks hr holds ne before
    have self : ∀ {m : RoleMove} {r'}, m.role = .receiver r' →
        (x.settle k now a m).HasReceiver k r' := fun role' =>
      ⟨_, settle_actors_self here, role'⟩
    obtain ⟨e, unbound, -⟩ | ⟨li', deadline, bound', -, binds⟩ | ⟨li', bound', -, binds⟩ :=
      r.bind_cases li.lock now x.sockets
    · cases bound.symm.trans unbound
    · obtain rfl := Except.ok.inj (bound.symm.trans bound')
      rw [binds]
      refine ⟨.listens (r := r.goTo (.accepting li deadline)) rfl ⟨self rfl, deadline, rfl⟩, p, ?_⟩
      exact .of_receiver (self rfl) rfl kept others
    · obtain rfl := Except.ok.inj (bound.symm.trans bound')
      rw [binds]
      obtain ⟨kept', gone⟩ := kept.closeListener
      exact ⟨.past (self rfl) le_add_self gone, p, .of_receiver (self rfl) rfl kept' others⟩

theorem Attends.step {mover : Option Nat} {a b : Nat × Exchange} (attends : a.2.Attends path k li)
    (tended : a.2.Tended path p li.lock.entry) (h : Step mover a b) :
    b.2.Attends path k li := by
  cases attends with
  | @listens r mine listens =>
    obtain ⟨hk, deadline, phase⟩ := listens
    obtain ⟨-, hk'⟩ | ⟨rfl, -⟩ := h.receiver hk
    · exact .listens mine ⟨hk', deadline, phase⟩
    · have holds : r.hold? = some (.listener li) := by simp [Receiver.hold?, phase]
      obtain ⟨o, turn, hsockets, hk'⟩ := h.turn hk
      have change := turn.change
      rw [holds, mine] at change
      obtain ⟨gone, nothing⟩ := change.gone (tended.holder hk mine holds rfl)
      refine .past hk' ?_ (hsockets ▸ gone)
      obtain ⟨reached, after, le⟩ := turn.ahead
      rw [after] at nothing ⊢
      rw [phase] at le
      cases reached <;> simp [Receiver.goTo, Receiver.hold?, Receiver.Phase.rank] at le nothing ⊢
  | past hk reached gone =>
    obtain ⟨r', hk', phase, rfl, le⟩ := h.ahead hk
    have onward := h.onward tended.wellFormed
    exact .past hk' (reached.trans le) (onward.fs.gone gone)

theorem Attends.run {a b : Nat × Exchange} (attends : a.2.Attends path k li)
    (tended : a.2.Tended path p li.lock.entry) (run : Run (Private path) a b) :
    b.2.Attends path k li := by
  induction run with
  | refl => exact attends
  | tail run h ih =>
    obtain ⟨mover, step, -⟩ := h
    exact ih.step (tended.run run) step

/-- Once a listener is closed, its path is clear. -/
theorem Tended.cleared {x : Exchange} {r : Receiver}
    (tended : x.Tended path p li.lock.entry) (hk : x.HasReceiver k r)
    (reached : 7 ≤ r.phase.rank) (gone : x.sockets.fs.Gone li.entry) : x.Cleared path k li where
  released := by
    refine ⟨r, hk, Receiver.hold?_eq_none_iff.mp ?_⟩
    unfold Receiver.hold?
    split <;> simp_all [Receiver.Phase.rank]
  removed := gone.2
  vacant e stands := by
    cases tended with
    | free kept =>
      cases kept with
      | free site _ vacant =>
        rw [site.entryAt?_eq_head?, vacant] at stands
        cases stands
    | held kept here mine holds =>
      cases kept with
      | locked site _ vacant =>
        rw [site.entryAt?_eq_head?, vacant] at stands
        cases stands
      | bound site _ alone =>
        rw [site.entryAt?_eq_head?, alone] at stands
        cases stands
        exact ⟨_, _, _, mine, ⟨here, Receiver.phase_of_listener holds⟩, rfl⟩
  lockFile := tended.lockFile
  unlocked held := by
    cases tended with
    | free kept =>
      cases kept with
      | free _ _ _ unlocked => exact absurd held (List.count_eq_zero.mp unlocked)
    | held kept here mine holds =>
      exact ⟨_, _, _, here, mine, Receiver.lock?_of_hold? holds, kept.own⟩

/-- Nobody takes part but senders and the receivers of one path. -/
def Only (path : String) (x : Exchange) : Prop :=
  ∀ (i : Nat) (a : Actor), x.actors[i]? = some a →
    (∃ r, a.role = .receiver r ∧ r.path = path) ∨ ∃ d, a.role = .sender d

theorem Only.quiet {x : Exchange} (only : x.Only path) : x.Quiet := by
  intro i a p ha hp
  obtain ⟨r, hr, -⟩ | ⟨d, hd⟩ := only i a ha
  · cases hr.symm.trans hp
  · cases hd.symm.trans hp

/-- Nobody is about to remove anything, and nothing is left under way but the opening of the lock file. -/
structure NoRemoval (path : String) (x : Exchange) : Prop where
  waiting : ∀ {k r l}, x.HasReceiver k r → r.phase ≠ .removing l
  left : ∀ call ∈ x.sockets.detached, call = .openFile (lockPath path)

/-- Where nothing stands when the path is locked, nothing is found that could be removed. -/
theorem Reserved.not_seen {x : Exchange} (reserved : x.Reserved path p) {r : Receiver} {l : SocketLock}
    (hk : x.HasReceiver k r) (entitled : r.Entitled path x.sockets) (phase : r.phase = .reclaiming l) :
    Transport.hasSocket path x.sockets = false := by
  have holds : r.hold? = some (.lock l) := by simp [Receiver.hold?, phase]
  have locks := Receiver.lock?_of_hold? holds
  cases reserved with
  | untaken _ idle => cases (idle hk entitled.1).symm.trans locks
  | tended tended =>
    have same := (entitled.2 _ locks).symm.trans tended.lockFile
    exact (tended.holder hk entitled.1 holds (Prod.mk.inj (Except.ok.inj same)).1).hasSocket

theorem NoRemoval.turn {x : Exchange} {r : Receiver} {o : Outcome Receiver}
    (noRemoval : x.NoRemoval r.path) (hk : x.HasReceiver k r) (turn : r.Turn x.sockets o) :
    ∀ call ∈ o.sockets.detached, call = .openFile (lockPath r.path) := by
  obtain kept | ⟨call, leaves, left, -⟩ := turn.detached
  · exact kept ▸ noRemoval.left
  · intro other mem
    rw [left] at mem
    obtain mem | mem := List.mem_append.mp mem
    · exact noRemoval.left other mem
    · obtain rfl := List.mem_singleton.mp mem
      exact Receiver.openFile_of_leaves? leaves fun _ => noRemoval.waiting hk

theorem Only.step {mover : Option Nat} {a b : Nat × Exchange} (only : a.2.Only path)
    (inv : a.2.Exclusive) (reserved : a.2.Reserved path p) (noRemoval : a.2.NoRemoval path)
    (h : Step mover a b) : Private path mover a.2 b.2 ∧ b.2.Only path ∧ b.2.NoRemoval path := by
  cases h with
  | wait | cancel => exact ⟨fun _ => .inl (.of_eq rfl rfl), only, noRemoval.waiting, noRemoval.left⟩
  | @carryOut now x call underWay =>
    obtain rfl := noRemoval.left call underWay
    have left : ∀ other ∈ x.sockets.detached.erase (.openFile (lockPath path)),
        other = .openFile (lockPath path) :=
      fun other mem => noRemoval.left other (List.mem_of_mem_erase mem)
    exact ⟨fun _ => .inr rfl, only, noRemoval.waiting, left⟩
  | @move now x i c m here started does =>
    have others (mine : (∃ r, m.role = .receiver r ∧ r.path = path) ∨ ∃ d, m.role = .sender d)
        (waiting : ∀ {r l}, m.role = .receiver r → r.phase ≠ .removing l)
        (left : ∀ call ∈ m.sockets.detached, call = .openFile (lockPath path)) :
        (x.settle i now c m).Only path ∧ (x.settle i now c m).NoRemoval path := by
      refine ⟨fun j d hd => ?_, fun {k r l} hk => ?_, left⟩
      · obtain ⟨-, rfl⟩ | ⟨-, hd⟩ := settle_actors_cases here hd
        · exact mine
        · exact only j d hd
      · obtain ⟨-, role⟩ | ⟨-, hk⟩ := hk.settle here
        · exact waiting role
        · exact noRemoval.waiting hk
    obtain ⟨r, role, rfl⟩ | ⟨d, role⟩ := only i c here <;> rw [role] at does
    · obtain ⟨o, ho, rfl⟩ := Role.does_receiver does
      have turn := Receiver.turn_of_does ho
      have hr : x.HasReceiver i r := ⟨c, here, role⟩
      have entitled : r.Entitled r.path x.sockets :=
        ⟨rfl, fun l held => ((inv.secure hr).locks held).file⟩
      refine ⟨fun other => absurd entitled (other i r rfl hr),
        others (.inl ⟨o.value, rfl, turn.path_eq⟩) ?_ ?_⟩
      · rintro _ l ⟨rfl⟩ removing
        obtain ⟨phase, seen⟩ := turn.seen removing
        cases seen.symm.trans (reserved.not_seen hr entitled phase)
      · exact noRemoval.turn hr turn
    · obtain ⟨o, ho, rfl⟩ := Role.does_sender does
      have same := (Sender.turn_of_does ho).sameFiles
      exact ⟨fun _ => .inl (.of_eq same.fs same.locked),
        others (.inr ⟨_, rfl⟩) (fun role => by cases role) (same.detached ▸ noRemoval.left)⟩

/-- Where nobody else takes part, nobody touches the path. -/
theorem Only.run {a b : Nat × Exchange} (only : a.2.Only path) (inv : a.2.Exclusive)
    (reserved : a.2.Reserved path p) (noRemoval : a.2.NoRemoval path)
    (run : Run (fun _ _ _ => True) a b) :
    Run (Private path) a b ∧ b.2.Only path ∧ b.2.Exclusive ∧ b.2.NoRemoval path := by
  induction run with
  | refl => exact ⟨.refl, only, inv, noRemoval⟩
  | tail _ h ih =>
    obtain ⟨mover, step, -⟩ := h
    obtain ⟨alone, only, inv, noRemoval⟩ := ih
    obtain ⟨private', only', noRemoval'⟩ := only.step inv (reserved.run alone) noRemoval step
    have nothing : RemovesNothing _ := fun other mem => by cases noRemoval.left _ mem
    obtain ⟨peaceful, -⟩ := inv.peaceful_of_quiet only.quiet nothing step
    exact ⟨alone.tail ⟨mover, step, private'⟩, only', inv.step step peaceful, noRemoval'⟩

theorem Initial.noRemoval {x : Exchange} (initial : x.Initial) (settled : x.sockets.detached = []) :
    x.NoRemoval path := by
  refine ⟨?_, fun call mem => by simp [settled] at mem⟩
  rintro k r l ⟨a, ha, role⟩ phase
  have isNew := (initial.isNew a (List.mem_of_getElem? ha)).1
  rw [role] at isNew
  cases isNew.symm.trans phase

/-- A receiver that was bound listens until its listener goes. From then on its path is clear, whether
it reads, has returned, has overflowed or was dropped, as a call is that unwinds. A path that could be
bound can be bound again whenever no receiver of the path holds anything. Where only senders and the
receivers of a path take part, and it could be bound first, nobody else ever touches it. -/
theorem cleanup_on_every_exit {t : Nat} {start : Exchange} {a : Nat × Exchange}
    (initial : start.Initial) (history : Run (fun _ _ _ => True) (t, start) a) :
    (∀ {k li b c}, Binds path k li a b → Run (Private path) b c →
      (∃ r, r.path = path ∧ c.2.Listens k r li) ∨ c.2.Cleared path k li) ∧
    (start.sockets.LocksMade → a.2.sockets.Free path → a.2.Idle path →
      ∀ {b}, Run (Private path) a b → b.2.Idle path → b.2.sockets.Free path ∧
        ∀ {r : Receiver} {ts : Tokens} {now : Nat}, r.path = path → r.phase = .starting →
          r.config.validate = .ok () → r.context.ended? ts now = none →
          r.CanBind ts now b.2.sockets) ∧
    (start.Only path → start.sockets.LocksMade → start.sockets.Free path →
      start.sockets.detached = [] → ∀ {b}, Run (fun _ _ _ => True) a b → Run (Private path) a b) := by
  have onward := onward_of_run initial.wellFormed history
  have wf := onward.fs.wellFormed initial.wellFormed
  have sole := initial.soleHolders.run initial.wellFormed history
  refine ⟨?_, ?_, ?_⟩
  · intro k li b c binds further
    have named : path ≠ "" := by
      rintro rfl
      cases binds with
      | move here role phase entitled =>
        have early := initial.unnamed history ⟨_, here, role⟩ entitled.1
        simp [phase, Receiver.isOver] at early
    obtain ⟨attends, p, tended⟩ := binds.attends named wf sole
    cases attends.run tended further with
    | listens mine listens => exact .inl ⟨_, mine, listens⟩
    | past hk reached gone => exact .inr ((tended.run further).cleared hk reached gone)
  · intro made free idle b run idle'
    obtain ⟨p, ready⟩ := free.ready wf (onward.locksMade initial.wellFormed made)
    have ready' := ((reserved_of_ready ready idle).run run).ready idle'
    refine ⟨ready'.free, fun {r ts now} mine phase valid live => ?_⟩
    subst mine
    exact Receiver.canBind_of_ready ready' phase valid live
  · intro only made free settled b further
    obtain ⟨p, ready⟩ := free.ready initial.wellFormed made
    have reserved := reserved_of_ready ready fun hk _ => initial.holds_nothing hk
    obtain ⟨alone, only', inv, noRemoval⟩ :=
      only.run initial.exclusive reserved (initial.noRemoval settled) history
    exact (only'.run inv (reserved.run alone) noRemoval further).1

/-- Two receivers with one path, one after another, and a sender for the first of them. -/
def oneAfterAnother : Exchange where
  root := ⟨0, []⟩
  tokens := ⟨1, []⟩
  cancels := []
  sockets := .empty
  actors := [
    ⟨0, .receiver ⟨.withSocket "s", .binary, .ofToken ⟨0, []⟩, .starting⟩, none, [], none⟩,
    ⟨0, .sender ⟨.withSocket "s", .binary, .ofToken ⟨0, []⟩, [⟨.tdxReport, [1, 2], [3]⟩],
      .starting⟩, none, [], none⟩,
    ⟨1, .receiver ⟨.withSocket "s", .binary, .ofToken ⟨0, []⟩, .starting⟩, none, [], none⟩]
  turn := none

/-- The first receiver is bound with the fourth move and has returned after nine. It leaves the path
clear, and the second one can bind it. -/
theorem cleanup_on_every_exit_one_after_another :
    ∃ a b c li r r', Run (fun _ _ _ => True) (0, oneAfterAnother) a ∧ Binds "s" 0 li a b ∧
      Run (Private "s") b c ∧ c.2.HasReceiver 0 r ∧
      r.phase = .settled (.returned (.ok [⟨.tdxReport, [1, 2], [3]⟩])) ∧
      c.2.Cleared "s" 0 li ∧ c.2.sockets.Free "s" ∧ c.2.HasReceiver 2 r' ∧
      r'.CanBind c.2.tokens 1 c.2.sockets := by
  have initial : oneAfterAnother.Initial := by
    refine ⟨FileSystem.wellFormed_empty, rfl, rfl, fun a ha => ?_⟩
    obtain rfl | rfl | rfl : a = _ ∨ a = _ ∨ a = _ := by simpa [oneAfterAnother] using ha
    · exact ⟨rfl, rfl⟩
    · exact ⟨rfl, rfl⟩
    · exact ⟨rfl, rfl⟩
  have only : oneAfterAnother.Only "s" := by
    intro i a ha
    obtain rfl | rfl | rfl : a = _ ∨ a = _ ∨ a = _ := by
      simpa [oneAfterAnother] using List.mem_of_getElem? ha
    · exact .inl ⟨_, rfl, rfl⟩
    · exact .inr ⟨_, rfl⟩
    · exact .inl ⟨_, rfl, rfl⟩
  have ran : ∀ n, Run (fun _ _ _ => True) (0, oneAfterAnother)
      (clockwork.run n (0, oneAfterAnother)) := fun n => run_of_reaches (clockwork.reaches_run n _)
  have free : oneAfterAnother.sockets.Free "s" := ⟨by decide, _, _, rfl, rfl⟩
  have made : oneAfterAnother.sockets.LocksMade := fun entry held => by cases held
  have further := (cleanup_on_every_exit initial (ran 4)).2.2 only made free rfl
    (run_of_reaches (clockwork.reaches_run 5 (clockwork.run 4 (0, oneAfterAnother))))
  have bound := (cleanup_on_every_exit initial .refl).2.2 only made free rfl (ran 4)
  have binds : Binds "s" 0 ⟨"s", 2, ⟨"s.lock", 1⟩⟩ (clockwork.run 3 (0, oneAfterAnother))
      (clockwork.run 4 (0, oneAfterAnother)) :=
    .move rfl rfl rfl ⟨rfl, fun l held => by cases held; rfl⟩ rfl
  have first : (clockwork.run 5 (clockwork.run 4 (0, oneAfterAnother))).2.HasReceiver 0
      ⟨.withSocket "s", .binary, .ofToken ⟨0, []⟩,
        .settled (.returned (.ok [⟨.tdxReport, [1, 2], [3]⟩]))⟩ := ⟨_, rfl, rfl⟩
  have second : (clockwork.run 5 (clockwork.run 4 (0, oneAfterAnother))).2.HasReceiver 2
      ⟨.withSocket "s", .binary, .ofToken ⟨0, []⟩, .starting⟩ := ⟨_, rfl, rfl⟩
  have unheld : ((clockwork.run 5 (clockwork.run 4 (0, oneAfterAnother))).2.actors.all fun a =>
      match a.role with
      | .receiver r => r.lock?.isNone
      | _ => true) = true := rfl
  have idle : Idle "s" (clockwork.run 5 (clockwork.run 4 (0, oneAfterAnother))).2 := by
    rintro k r ⟨a, ha, role⟩ -
    have none := List.all_eq_true.mp unheld a (List.mem_of_getElem? ha)
    rw [role] at none
    exact Option.isNone_iff_eq_none.mp none
  obtain ⟨again, next⟩ := (cleanup_on_every_exit initial .refl).2.1 made free
    (fun hk _ => initial.holds_nothing hk) (bound.trans further) idle
  obtain ⟨r, -, listens⟩ | cleared := (cleanup_on_every_exit initial (ran 3)).1 binds further
  · obtain ⟨here, deadline, phase⟩ := listens
    obtain rfl := here.unique first
    cases phase
  · exact ⟨_, _, _, _, _, _, ran 3, binds, further, first, rfl, cleared, again, second,
      next rfl rfl rfl rfl⟩

end Exchange

end EvidenceExchange
