import EvidenceExchange.Proofs.Encounter.Basic

namespace EvidenceExchange

theorem Receiver.bind_of_add? {r : Receiver} {path : String} {l : SocketLock} {li : SocketListener}
    {deadline : Instant} {now : Nat} {s : Sockets} (named : r.path = path)
    (bound : (Transport.listen path l s).value = .ok li)
    (representable : (Instant.ofMillis now).add? r.config.timeout = some deadline) :
    r.bind l now s = ⟨r.goTo (.accepting li deadline), (Transport.listen path l s).sockets,
      (Transport.listen path l s).log⟩ := by
  subst named
  unfold bind
  -- The kernel must not compute with the instant, so it is hidden first.
  generalize (Instant.ofMillis now).add? r.config.timeout = added at representable ⊢
  subst representable
  simp only [bound]

namespace Exchange.Encounter

open FileSystem (Spot)

variable {x : Exchange} (e : Encounter x)

/-- How far the receiver has come while nobody is connected to it. -/
inductive Awaiting (now : Nat) (s : Sockets) : Receiver.Phase → Option Nat → Prop
  | starting {spot : Spot} (early : now ≤ e.opens) (ready : s.Ready e.d.path spot)
      (nobody : s.Hosts [] []) : Awaiting now s .starting none
  | locking {spot : Spot} (due : now = e.opens) (ready : s.Ready e.d.path spot)
      (nobody : s.Hosts [] []) : Awaiting now s .locking none
  | reclaiming {spot : Spot} {file l} (due : now = e.opens)
      (kept : s.Kept e.d.path spot file (some (.lock l))) (nobody : s.Hosts [] []) :
      Awaiting now s (.reclaiming l) none
  | binding {spot : Spot} {file l} (due : now = e.opens)
      (kept : s.Kept e.d.path spot file (some (.lock l))) (nobody : s.Hosts [] []) :
      Awaiting now s (.binding l) none
  | listening {spot : Spot} {file li} (opened : e.opens ≤ now) (early : now ≤ e.closes)
      (kept : s.Kept e.d.path spot file (some (.listener li)))
      (alone : s.Hosts [⟨li.entry, []⟩] []) :
      Awaiting now s (.accepting li (.ofMillis e.closes)) none
  | timedOut (late : e.closes ≤ now) (nobody : s.Hosts [] []) :
      Awaiting now s (.settled (.returned (.error (.timeout e.r.config.timeout)))) (some e.closes)

/-- A bound on the steps that are left to the receiver, the ends of its waits among them. -/
def hostSteps (now : Nat) : Receiver.Phase → Nat
  | .starting => e.frame.length + 8 + if now < e.opens then 1 else 0
  | .locking => e.frame.length + 7
  | .reclaiming _ => e.frame.length + 6
  | .removing _ => e.frame.length + 5
  | .removed _ _ => e.frame.length + 4
  | .binding _ => e.frame.length + 3
  | .accepting _ deadline => e.frame.length + 1 + if now < deadline.tick then 1 else 0
  | .reading _ _ reader => e.frame.length - (reader.codec.held reader.buffer.toList).length
  | .settled _ => 0

variable {e} {now grain : Nat} {s s' : Sockets} {q q' : Receiver.Phase} {v : Option Nat}
  {o : Outcome Receiver}

namespace Awaiting

theorem initially (e : Encounter x) : e.Awaiting 0 x.sockets .starting none := by
  obtain ⟨spot, ready⟩ := e.free.ready e.initial.wellFormed e.locksMade
  exact .starting (Nat.zero_le _) ready ⟨e.initial.listening, e.initial.connections, e.acceptFault⟩

theorem step (awaiting : e.Awaiting now s q v) (started : e.opens ≤ now)
    (moved : (e.r.goTo q).move grain x.tokens now s = some o) (after : o.value = e.r.goTo q') :
    e.Awaiting now o.sockets q' (if (e.r.goTo q').isOver then v <|> some now else none) ∧
      e.hostSteps now q' < e.hostSteps now q := by
  have live := e.receiverLasts.pollDone now
  have path_eq : e.r.config.socket = e.d.path := e.path_eq
  cases awaiting with
  | starting early ready nobody =>
    have unended : (e.r.goTo .starting).context.ended? x.tokens now = none := e.receiverLasts.ended? now
    rw [Receiver.move_of_starting (r := e.r.goTo .starting) rfl e.receiver_valid, unended] at moved
    cases moved
    obtain rfl : .locking = q' := congrArg Receiver.phase after
    refine ⟨.locking (early.antisymm started) ready nobody, ?_⟩
    simp only [hostSteps]
    omega
  | locking due ready nobody =>
    obtain ⟨l, file, locked, kept⟩ := ready.lock
    have held := nobody.lock e.d.path
    simp only [Receiver.move, Receiver.goTo, Receiver.lock, Receiver.path, live, path_eq,
      locked] at moved
    cases moved
    obtain rfl : (if e.r.config.reclaimStaleSocket then .reclaiming l else .binding l) = q' :=
      congrArg Receiver.phase after
    split
    · refine ⟨.reclaiming due kept held, ?_⟩
      simp only [hostSteps]
      omega
    · refine ⟨.binding due kept held, ?_⟩
      simp only [hostSteps]
      omega
  | @reclaiming _ _ l due kept nobody =>
    simp only [Receiver.move, Receiver.goTo, Receiver.reclaim, Receiver.path, live, path_eq,
      kept.hasSocket, Bool.false_eq_true, if_false] at moved
    cases moved
    obtain rfl : .binding l = q' := congrArg Receiver.phase after
    refine ⟨.binding due kept nobody, ?_⟩
    simp only [hostSteps]
    omega
  | @binding _ _ l due kept nobody =>
    obtain ⟨li, bound⟩ := kept.exists_listener
    have kept' := kept.listen bound
    have hosts := nobody.listen bound
    have binds := Receiver.bind_of_add? (r := e.r.goTo (.binding l)) e.path_eq bound
      (due ▸ e.add_timeout)
    change some ((e.r.goTo (.binding l)).bind l now s) = some o at moved
    rw [binds] at moved
    cases moved
    obtain rfl : .accepting li (.ofMillis e.closes) = q' := congrArg Receiver.phase after
    refine ⟨.listening started (due ▸ e.opens_lt_closes.le) kept' hosts, ?_⟩
    simp only [hostSteps]
    split <;> omega
  | @listening _ _ li opened early kept alone =>
    simp only [Receiver.move, Receiver.goTo, Receiver.accept, live, alone.accept_none] at moved
    split at moved
    next fired =>
      cases moved
      have late : e.closes ≤ now := by
        rwa [Context.timerFired, Instant.tick_ofMillis, decide_eq_true_eq] at fired
      obtain rfl : now = e.closes := early.antisymm late
      obtain rfl : .settled (.returned (.error (.timeout e.r.config.timeout))) = q' :=
        congrArg Receiver.phase after
      refine ⟨.timedOut late alone.closeListener, ?_⟩
      simp only [hostSteps]
      omega
    next => cases moved
  | timedOut => cases moved

/-- Who connects is with a receiver that listens. -/
theorem of_connected (awaiting : e.Awaiting now s q v) {stream : Endpoint}
    (connected : s.connect e.d.path = (.ok stream, s')) :
    ∃ li, q = .accepting li (.ofMillis e.closes) ∧ v = none ∧ e.opens ≤ now ∧ now ≤ e.closes ∧
      stream = ⟨0, .client⟩ ∧ s'.Hosts [⟨li.entry, [0]⟩] [.new] := by
  have unreached : s.Hosts [] [] → False := by
    intro nobody
    obtain ⟨cause, refused⟩ := Sockets.connect_of_nobody nobody.listening e.d.path
    cases connected.symm.trans refused
  cases awaiting with
  | starting _ _ nobody | locking _ _ nobody | reclaiming _ _ nobody | binding _ _ nobody
  | timedOut _ nobody => exact (unreached nobody).elim
  | @listening _ _ li opened early kept alone =>
    obtain ⟨s'', connected', hosts⟩ := alone.connect kept
    obtain ⟨same, rfl⟩ := Prod.mk.inj (connected.symm.trans connected')
    exact ⟨li, rfl, rfl, opened, early, Except.ok.inj same, hosts⟩

/-- No attempt fails while the receiver listens. -/
theorem closed_of_refused (awaiting : e.Awaiting now s q v) {cause : IoError}
    (refused : s.connect e.d.path = (.error cause, s')) : now ≤ e.opens ∨ e.closes ≤ now := by
  cases awaiting with
  | starting early => exact .inl early
  | locking due | reclaiming due | binding due => exact .inl due.le
  | timedOut late => exact .inr late
  | listening _ _ kept alone =>
    obtain ⟨s'', connected, -⟩ := alone.connect kept
    cases connected.symm.trans refused

end Awaiting

/-- A receiver that has nothing to do: before its start, at its listener or at the end. -/
inductive HostRests (e : Encounter x) (now : Nat) (s : Sockets) : Receiver.Phase → Option Nat → Prop
  | unstarted {spot : Spot} (early : now < e.opens) (ready : s.Ready e.d.path spot)
      (nobody : s.Hosts [] []) : HostRests e now s .starting none
  | listening {spot : Spot} {file li} (opened : e.opens ≤ now) (early : now < e.closes)
      (kept : s.Kept e.d.path spot file (some (.listener li)))
      (alone : s.Hosts [⟨li.entry, []⟩] []) :
      HostRests e now s (.accepting li (.ofMillis e.closes)) none
  | finished (late : e.closes ≤ now) (nobody : s.Hosts [] []) :
      HostRests e now s (.settled (.returned (.error (.timeout e.r.config.timeout))))
        (some e.closes)

theorem Awaiting.rests (awaiting : e.Awaiting now s q v)
    (idle : e.opens ≤ now → (e.r.goTo q).move grain x.tokens now s = none) :
    e.HostRests now s q v := by
  have live := e.receiverLasts.pollDone now
  cases awaiting with
  | starting early ready nobody =>
    refine .unstarted (not_le.mp fun started => ?_) ready nobody
    cases idle started
  | locking due | reclaiming due | binding due => cases idle due.ge
  | listening opened early kept alone =>
    have still := idle opened
    simp only [Receiver.move, Receiver.goTo, Receiver.accept, live, alone.accept_none] at still
    split at still
    next => cases still
    next unfired =>
      rw [Context.timerFired, Instant.tick_ofMillis, decide_eq_true_eq] at unfired
      exact .listening opened (not_le.mp unfired) kept alone
  | timedOut late nobody => exact .finished late nobody

namespace HostRests

theorem exists_timer (rests : e.HostRests now s q v) (live : (e.r.goTo q).isOver = false) :
    ∃ t ∈ e.hostTimers q, now < t := by
  cases rests with
  | unstarted early => exact ⟨e.opens, List.mem_cons_self .., early⟩
  | listening opened early =>
    refine ⟨e.closes, List.mem_cons_of_mem _ ?_, early⟩
    simp only [Receiver.goTo, Receiver.timers, Instant.tick_ofMillis]
    exact List.mem_cons_self ..
  | finished => cases live

theorem wait (rests : e.HostRests now s q v) {later : Nat} (passes : now < later)
    (least : ∀ t ∈ e.hostTimers q, now < t → later ≤ t) :
    e.Awaiting later s q v ∧ e.hostSteps later q ≤ e.hostSteps now q ∧
      (later ∈ e.hostTimers q → e.hostSteps later q < e.hostSteps now q) := by
  cases rests with
  | unstarted early ready nobody =>
    have le := least _ (List.mem_cons_self ..) early
    refine ⟨.starting le ready nobody, ?_, fun mem => ?_⟩
    · simp only [hostSteps, if_pos early]
      split <;> omega
    · obtain rfl : later = e.opens := List.mem_singleton.mp mem
      simp only [hostSteps, if_pos early, if_neg (lt_irrefl _)]
      omega
  | @listening _ _ li opened early kept alone =>
    have timers : e.hostTimers (.accepting li (.ofMillis e.closes)) = [e.opens, e.closes] := by
      simp [hostTimers, Receiver.isOver, Receiver.goTo, Receiver.timers, e.receiverLasts.timers]
    rw [timers] at least ⊢
    have le := least _ (List.mem_cons_of_mem _ (List.mem_cons_self ..)) early
    refine ⟨.listening (opened.trans passes.le) le kept alone, ?_, fun mem => ?_⟩
    · simp only [hostSteps, Instant.tick_ofMillis, if_pos early]
      split <;> omega
    · obtain rfl | mem := List.mem_cons.mp mem
      · exact absurd passes (not_lt.mpr opened)
      · obtain rfl := List.mem_singleton.mp mem
        simp only [hostSteps, Instant.tick_ofMillis, if_pos early, if_neg (lt_irrefl _)]
        omega
  | finished late nobody =>
    refine ⟨.timedOut (late.trans passes.le) nobody, le_rfl, fun mem => ?_⟩
    cases mem

end HostRests

end Exchange.Encounter

end EvidenceExchange
