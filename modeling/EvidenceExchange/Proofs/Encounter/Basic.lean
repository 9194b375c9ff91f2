import EvidenceExchange.Proofs.Carriage
import EvidenceExchange.Proofs.Cleanup
import EvidenceExchange.Proofs.Promptness
import EvidenceExchange.Proofs.Sending

namespace EvidenceExchange

/-- A context without a deadline that nobody cancels. -/
structure Context.Endless (c : Context) (ts : Tokens) : Prop where
  undated : c.deadline = none
  uncancelled : ts.isCancelled c.token = false

namespace Context.Endless

variable {c : Context} {ts : Tokens}

theorem pollDone (h : c.Endless ts) (now : Nat) : c.pollDone ts now = none := by
  simp [Context.pollDone, h.undated, h.uncancelled]

theorem ended? (h : c.Endless ts) (now : Nat) : c.ended? ts now = none := by
  rw [← c.pollDone_eq_ended?, h.pollDone]

theorem timers (h : c.Endless ts) : c.timers = [] := by
  simp [Context.timers, h.undated]

end Context.Endless

namespace Exchange

/-- One sender and one receiver of a path that nobody has locked and where nothing stands. All lengths
of time are given in whole milliseconds, and the deadline of the receiver is representable. -/
structure Encounter (x : Exchange) where
  caller : Nat
  host : Nat
  d : Sender
  r : Receiver
  /-- The instants at which the two are started. -/
  begins : Nat
  opens : Nat
  interval : Nat
  timeout : Nat
  payload : Bytes
  initial : x.Initial
  uncancelled : x.cancels = []
  pair : x.actors.length = 2
  apart : caller ≠ host
  calls : x.actors[caller]? = some ⟨begins, .sender d, none, [], none⟩
  hosts : x.actors[host]? = some ⟨opens, .receiver r, none, [], none⟩
  path_eq : r.path = d.path
  free : x.sockets.Free d.path
  locksMade : x.sockets.LocksMade
  acceptFault : x.sockets.acceptFault = none
  settled : x.sockets.detached = []
  senderLasts : d.context.Endless x.tokens
  receiverLasts : r.context.Endless x.tokens
  senderCodec : d.codec = .binary
  receiverCodec : r.codec = .binary
  encoded : d.bundle.encode = .ok payload
  fits : payload.length ≤ Frame.maxPayload
  retries : d.config.maxRetries.toNat < UInt32.size - 1
  interval_eq : d.config.retryInterval.nanos = interval * 1000000
  timeout_eq : r.config.timeout.nanos = timeout * 1000000
  patient : 0 < timeout
  representable : (opens + timeout) * 1000000 < Instant.limitSecs * 1000000000

namespace Encounter

variable {x : Exchange} (e : Encounter x)

/-- How many attempts there may be. -/
def rounds : Nat := e.d.config.maxRetries.toNat + 1

/-- The time from one attempt to the next. No pause is longer than thirty years. -/
def period : Nat := min e.interval (Instant.longestWait / 1000000)

/-- When an attempt comes after so many others. -/
def attemptAt (m : Nat) : Nat := e.begins + m * e.period

/-- When the receiver gives up. -/
def closes : Nat := e.opens + e.timeout

def frame : Bytes := BigEndian.encode Frame.lengthSize e.payload.length ++ e.payload

theorem framed : Frame.encode e.payload = .ok e.frame := Frame.encode_eq_ok_iff.mpr ⟨e.fits, rfl⟩

theorem opens_lt_closes : e.opens < e.closes := Nat.lt_add_of_pos_right e.patient

theorem attemptAt_mono {m k : Nat} (le : m ≤ k) : e.attemptAt m ≤ e.attemptAt k :=
  Nat.add_le_add_left (Nat.mul_le_mul_right _ le) _

theorem attemptAt_succ (m : Nat) : e.attemptAt (m + 1) = e.attemptAt m + e.period := by
  rw [attemptAt, attemptAt, Nat.succ_mul, Nat.add_assoc]

theorem begins_le_attemptAt (m : Nat) : e.begins ≤ e.attemptAt m := Nat.le_add_right _ _

theorem maxAttempts_eq : e.d.config.retryPolicy.maxAttempts = e.rounds :=
  Nat.min_eq_left (Nat.succ_le_of_lt e.retries)

theorem tick_afterWait (now : Nat) :
    ((Instant.ofMillis now).afterWait e.d.config.retryPolicy.interval).tick = now + e.period := by
  have interval : e.d.config.retryPolicy.interval.nanos = e.interval * 1000000 := e.interval_eq
  have longest : Instant.longestWait / 1000000 * 1000000 = Instant.longestWait := by decide
  have wait : Nat.min (e.interval * 1000000) Instant.longestWait = e.period * 1000000 := by
    rw [period, ← Nat.mul_min_mul_right, longest]
  rw [Instant.afterWait, interval, wait]
  change (now * 1000000 + e.period * 1000000 + 999999) / 1000000 = now + e.period
  omega

theorem add_timeout :
    (Instant.ofMillis e.opens).add? e.r.config.timeout = some (.ofMillis e.closes) := by
  have sum : e.opens * 1000000 + e.timeout * 1000000 = e.closes * 1000000 := by
    rw [closes, Nat.add_mul]
  rw [Instant.add?, e.timeout_eq, Instant.ofMillis, sum]
  exact if_pos e.representable

theorem sender_valid : e.d.config.validate = .ok () := by
  have named : e.d.config.socket.isEmpty = false := by simpa [Sender.path] using e.free.1
  rw [SenderConfig.validate, checkSocket, named]
  rfl

theorem receiver_valid : e.r.config.validate = .ok () := by
  have named : e.r.path.isEmpty = false := by simpa [e.path_eq] using e.free.1
  have lasts : e.r.config.timeout.isZero = false := by
    have pos := e.patient
    simp only [Duration.isZero, e.timeout_eq, beq_eq_false_iff_ne]
    omega
  rw [Receiver.path] at named
  rw [ReceiverConfig.validate, checkSocket, named, lasts]
  rfl

theorem attempts_of_host (b : Nat × Exchange) : attempts e.caller (some e.host) b = [] :=
  attempts_of_ne (fun same => e.apart (Option.some.inj same).symm) b

/-- Where the two stand, with the instants at which their calls ended. No call on files goes on by itself. -/
structure View (y : Exchange) (p : Sender.Phase) (u : Option Nat) (q : Receiver.Phase)
    (v : Option Nat) : Prop where
  tokens : y.tokens = x.tokens
  uncancelled : y.cancels = []
  pair : y.actors.length = 2
  settled : y.sockets.detached = []
  calls : ∃ log, y.actors[e.caller]? = some ⟨e.begins, .sender (e.d.goTo p), none, log, u⟩
  hosts : ∃ log, y.actors[e.host]? = some ⟨e.opens, .receiver (e.r.goTo q), none, log, v⟩

theorem view : e.View x .starting none .starting none where
  tokens := rfl
  uncancelled := e.uncancelled
  pair := e.pair
  settled := e.settled
  calls := by
    have new : e.d.phase = .starting := (e.initial.isNew _ (List.mem_of_getElem? e.calls)).1
    exact ⟨[], by rw [e.calls, Sender.goTo, ← new]⟩
  hosts := by
    have new : e.r.phase = .starting := (e.initial.isNew _ (List.mem_of_getElem? e.hosts)).1
    exact ⟨[], by rw [e.hosts, Receiver.goTo, ← new]⟩

/-- The timers of a sender that stands so, its start among them. -/
def callerTimers (p : Sender.Phase) : List Nat :=
  if (e.d.goTo p).isOver then [] else e.begins :: (e.d.goTo p).timers

/-- The timers of a receiver that stands so, its start among them. -/
def hostTimers (q : Receiver.Phase) : List Nat :=
  if (e.r.goTo q).isOver then [] else e.opens :: (e.r.goTo q).timers

namespace View

variable {e} {y : Exchange} {p : Sender.Phase} {u : Option Nat} {q : Receiver.Phase} {v : Option Nat}

theorem cases (view : e.View y p u q v) {i : Nat} {a : Actor} (here : y.actors[i]? = some a) :
    i = e.caller ∨ i = e.host := by
  obtain ⟨_, calls⟩ := view.calls
  obtain ⟨_, hosts⟩ := view.hosts
  have lt := (List.getElem?_eq_some_iff.mp here).1
  have lt_caller := (List.getElem?_eq_some_iff.mp calls).1
  have lt_host := (List.getElem?_eq_some_iff.mp hosts).1
  have apart := e.apart
  rw [view.pair] at lt lt_caller lt_host
  omega

theorem undisturbed (view : e.View y p u q v) : y.Undisturbed := by
  refine ⟨view.uncancelled, fun a mem => ?_⟩
  obtain ⟨i, here⟩ := List.mem_iff_getElem?.mp mem
  obtain ⟨_, calls⟩ := view.calls
  obtain ⟨_, hosts⟩ := view.hosts
  obtain rfl | rfl := view.cases here
  · obtain rfl := Option.some.inj (here.symm.trans calls)
    rfl
  · obtain rfl := Option.some.inj (here.symm.trans hosts)
    rfl

theorem isOver_iff (view : e.View y p u q v) :
    y.isOver = true ↔ (e.d.goTo p).isOver = true ∧ (e.r.goTo q).isOver = true := by
  obtain ⟨log, calls⟩ := view.calls
  obtain ⟨log', hosts⟩ := view.hosts
  simp only [Exchange.isOver, List.all_eq_true]
  constructor
  · intro all
    exact ⟨all _ (List.mem_of_getElem? calls), all _ (List.mem_of_getElem? hosts)⟩
  · rintro ⟨sent, received⟩ a mem
    obtain ⟨i, here⟩ := List.mem_iff_getElem?.mp mem
    obtain rfl | rfl := view.cases here
    · obtain rfl := Option.some.inj (here.symm.trans calls)
      exact sent
    · obtain rfl := Option.some.inj (here.symm.trans hosts)
      exact received

theorem mem_timers_iff (view : e.View y p u q v) {t : Nat} :
    t ∈ clockwork.timers y ↔ t ∈ e.callerTimers p ∨ t ∈ e.hostTimers q := by
  obtain ⟨log, calls⟩ := view.calls
  obtain ⟨log', hosts⟩ := view.hosts
  have own : ∀ {s role log u}, Actor.timers ⟨s, role, none, log, u⟩ =
      if role.isOver then [] else s :: role.timers := by
    intro s role log u
    simp only [Actor.timers, Actor.isOver, Option.toList_none, List.append_nil]
  simp only [clockwork, view.uncancelled, List.map_nil, List.nil_append, List.mem_flatMap]
  constructor
  · rintro ⟨a, mem, set⟩
    obtain ⟨i, here⟩ := List.mem_iff_getElem?.mp mem
    obtain rfl | rfl := view.cases here
    · obtain rfl := Option.some.inj (here.symm.trans calls)
      rw [own] at set
      exact .inl set
    · obtain rfl := Option.some.inj (here.symm.trans hosts)
      rw [own] at set
      exact .inr set
  · rintro (set | set)
    · refine ⟨_, List.mem_of_getElem? calls, ?_⟩
      rw [own]
      exact set
    · refine ⟨_, List.mem_of_getElem? hosts, ?_⟩
      rw [own]
      exact set

theorem step (view : e.View y p u q v) {mover : Option Nat} {now later : Nat} {z : Exchange}
    (step : Prompt mover (now, y) (later, z)) :
    (mover = some e.caller ∧ e.begins ≤ now ∧ later = now ∧ ∃ grain o p', 0 < grain ∧
      (e.d.goTo p).move grain x.tokens now y.sockets = some o ∧ o.value = e.d.goTo p' ∧
        z.sockets = o.sockets ∧
          e.View z p' (if (e.d.goTo p').isOver then u <|> some now else none) q v) ∨
    (mover = some e.host ∧ e.opens ≤ now ∧ later = now ∧ ∃ grain o q', 0 < grain ∧
      (e.r.goTo q).move grain x.tokens now y.sockets = some o ∧ o.value = e.r.goTo q' ∧
        z.sockets = o.sockets ∧
          e.View z p u q' (if (e.r.goTo q').isOver then v <|> some now else none)) ∨
    mover = none ∧ z = y ∧ now < later ∧ (later ∈ e.callerTimers p ∨ later ∈ e.hostTimers q) ∧
      (∀ t ∈ e.callerTimers p, now < t → later ≤ t) ∧ (∀ t ∈ e.hostTimers q, now < t → later ≤ t) ∧
        ∃ grain, 0 < grain ∧ y.Idles grain now := by
  obtain ⟨log, calls⟩ := view.calls
  obtain ⟨log', hosts⟩ := view.hosts
  cases step with
  | @move _ _ i a grain m here started pos moved =>
    rw [view.tokens] at moved
    obtain rfl | rfl := view.cases here
    · obtain rfl := Option.some.inj (here.symm.trans calls)
      obtain ⟨o, polled, rfl⟩ := Option.map_eq_some_iff.mp moved
      obtain ⟨p', same⟩ := (Sender.turn_of_does (.move grain polled)).same_call
      refine .inl ⟨rfl, started, rfl, grain, o, p', pos, polled, same, rfl, ?_⟩
      have settled := (Sender.turn_of_does (.move grain polled)).sameFiles.detached.trans view.settled
      refine ⟨view.tokens, view.uncancelled, (List.length_set ..).trans view.pair, settled,
        ⟨log ++ o.log, ?_⟩, log', (settle_actors_other e.apart.symm).trans hosts⟩
      rw [settle_actors_self here, Actor.after, same]
      rfl
    · obtain rfl := Option.some.inj (here.symm.trans hosts)
      obtain ⟨o, polled, rfl⟩ := Option.map_eq_some_iff.mp moved
      obtain ⟨q', same, -⟩ := (Receiver.turn_of_does (.move grain polled)).ahead
      refine .inr (.inl ⟨rfl, started, rfl, grain, o, q', pos, polled, same, rfl, ?_⟩)
      have lasts := e.receiverLasts.pollDone now
      have settled := (Receiver.move_detached (r := e.r.goTo q) lasts polled).trans view.settled
      refine ⟨view.tokens, view.uncancelled, (List.length_set ..).trans view.pair, settled,
        ⟨log, (settle_actors_other e.apart).trans calls⟩, log' ++ o.log, ?_⟩
      rw [settle_actors_self here, Actor.after, Role.ofReceiver_role, same]
      rfl
  | carryOut underWay =>
    rw [view.settled] at underWay
    cases underWay
  | @wait _ later _ grain pos idle next =>
    obtain ⟨passes, mem, least⟩ := Clockwork.nextTimer_eq_some_iff.mp next
    exact .inr (.inr ⟨rfl, rfl, passes, view.mem_timers_iff.mp mem,
      fun t set => least t (view.mem_timers_iff.mpr (.inl set)),
      fun t set => least t (view.mem_timers_iff.mpr (.inr set)), grain, pos, idle⟩)

theorem caller_idle (view : e.View y p u q v) {grain now : Nat} (idle : y.Idles grain now)
    (started : e.begins ≤ now) : (e.d.goTo p).move grain x.tokens now y.sockets = none := by
  obtain ⟨_, calls⟩ := view.calls
  exact view.tokens ▸ Option.map_eq_none_iff.mp (idle _ _ calls started)

theorem host_idle (view : e.View y p u q v) {grain now : Nat} (idle : y.Idles grain now)
    (started : e.opens ≤ now) : (e.r.goTo q).move grain x.tokens now y.sockets = none := by
  obtain ⟨_, hosts⟩ := view.hosts
  exact view.tokens ▸ Option.map_eq_none_iff.mp (idle _ _ hosts started)

/-- The attempt that the sender makes with its move. -/
theorem attempts_of_caller (view : e.View y p u q v) (now : Nat) :
    attempts e.caller (some e.caller) (now, y) =
      ((e.d.goTo p).attempt? x.tokens now y.sockets).toList := by
  obtain ⟨log, calls⟩ := view.calls
  simp only [attempts, calls, Option.map_some, view.tokens, if_true]

end View

end Encounter

end Exchange

end EvidenceExchange
