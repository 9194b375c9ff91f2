import EvidenceExchange.Proofs.Interleaving

namespace EvidenceExchange

theorem ExchangeError.ofCancellation_ne_frame (ended : Cancellation) (cause : FrameError) :
    ofCancellation ended ≠ .frame cause := by
  cases ended <;> simp [ofCancellation]

/-- What a call finds around it when it is polled or dropped. -/
structure Poll where
  grain : Nat
  tokens : Tokens
  now : Nat
  sockets : Sockets

/-- One turn of a call: the call before it, what it finds around it, what it does, and what it leaves. -/
structure Round (α δ : Type) where
  caller : α
  poll : Poll
  deeds : List δ
  outcome : Outcome α

/-- What a call has gone through since its start: the polls that made it do something, what it did to
connections then, and all that it logged. -/
inductive Course {α δ : Type} (acts : α → Poll → List δ → Outcome α → Prop) (a : α) :
    List (Round α δ) → List LogEvent → α → Prop
  | start : Course acts a [] [] a
  | next {rounds log b p ds o} (before : Course acts a rounds log b) (act : acts b p ds o) :
      Course acts a (rounds ++ [⟨b, p, ds, o⟩]) (log ++ o.log) o.value

namespace Round

variable {α δ : Type}

def polls (rounds : List (Round α δ)) : List Poll := rounds.map poll

def allDeeds (rounds : List (Round α δ)) : List δ := rounds.flatMap deeds

@[simp]
theorem polls_concat (rounds : List (Round α δ)) (round : Round α δ) :
    polls (rounds ++ [round]) = polls rounds ++ [round.poll] := by
  simp [polls]

@[simp]
theorem allDeeds_concat (rounds : List (Round α δ)) (round : Round α δ) :
    allDeeds (rounds ++ [round]) = allDeeds rounds ++ round.deeds := by
  simp [allDeeds]

end Round

/-- What is true of every turn, and of the call after it, is true of all that a course goes through. -/
theorem Course.forall_rounds {α δ : Type} {acts : α → Poll → List δ → Outcome α → Prop} {a b : α}
    {rounds : List (Round α δ)} {log : List LogEvent} {i : α → Prop} {holds : Round α δ → Prop}
    (course : Course acts a rounds log b) (begins : i a)
    (each : ∀ {b p ds o}, i b → acts b p ds o → i o.value ∧ holds ⟨b, p, ds, o⟩) :
    i b ∧ ∀ round ∈ rounds, holds round := by
  induction course with
  | start => exact ⟨begins, by simp⟩
  | next before act ih =>
    obtain ⟨before, all⟩ := ih
    obtain ⟨after, new⟩ := each before act
    refine ⟨after, fun round mem => ?_⟩
    obtain old | mem := List.mem_append.mp mem
    · exact all round old
    · exact List.mem_singleton.mp mem ▸ new

section chains

variable {α : Type}

/-- The steps of a chain, each from one state to the next. -/
def transitions (states : List α) : List (α × α) := states.zip states.tail

theorem transitions_concat (passed : List α) (old new : α) :
    transitions (passed ++ [old, new]) = transitions (passed ++ [old]) ++ [(old, new)] := by
  induction passed with
  | nil => rfl
  | cons first rest ih =>
    obtain _ | ⟨second, rest⟩ := rest
    · rfl
    · exact congrArg ((first, second) :: ·) ih

/-- Each state of a chain comes after all that stand before it. -/
def Forward [Ord α] (states : List α) : Prop :=
  states.Pairwise fun old new => compare old new = .lt

instance [Ord α] (states : List α) : Decidable (Forward states) :=
  inferInstanceAs (Decidable (List.Pairwise _ states))

theorem Forward.sublist [Ord α] {states states' : List α} (forward : Forward states')
    (sub : states.Sublist states') : Forward states :=
  List.Pairwise.sublist sub forward

end chains

namespace Receiver

/-- The connection that a poll takes from the transport, if it takes one. -/
def accepts? (r : Receiver) (p : Poll) : Option Endpoint :=
  match r.phase, r.context.pollDone p.tokens p.now with
  | .accepting l _, none => (Transport.accept l p.sockets).bind fun o => o.value.toOption
  | _, _ => none

/-- A poll that makes a receiver do something, with the connections that it accepts, or a drop. -/
inductive Acts (r : Receiver) (p : Poll) : List Endpoint → Outcome Receiver → Prop
  | move {o} (moved : r.move p.grain p.tokens p.now p.sockets = some o) :
      Acts r p (r.accepts? p).toList o
  | drop (live : r.isOver = false) : Acts r p [] (r.abort p.sockets)

/-- What a turn that accepts these connections leaves of the listeners. The connection that is accepted was
the oldest to wait at the receiver's listener, which is given up at once. -/
inductive Takes (r : Receiver) (s : Sockets) : List Endpoint → Outcome Receiver → Prop
  | accept {l deadline stream s' o} (phase : r.phase = .accepting l deadline)
      (oldest : s.accept l.entry = some (stream, s'))
      (reads : o.value = r.goTo (.reading stream deadline (.new .new)))
      (closed : o.sockets = (Transport.closeListener l s').sockets) : Takes r s [stream] o
  | giveUp {l deadline o} (phase : r.phase = .accepting l deadline) (ends : o.value.isOver = true)
      (closed : o.sockets = (Transport.closeListener l s).sockets) : Takes r s [] o
  | bind {lock o} (phase : r.phase = .binding lock)
      (listens : o.sockets = (Transport.listen r.path lock s).sockets) : Takes r s [] o
  | overflow {lock l o} (phase : r.phase = .binding lock)
      (bound : (Transport.listen r.path lock s).value = .ok l) (ends : o.value.isOver = true)
      (closed : o.sockets = (Transport.closeListener l (Transport.listen r.path lock s).sockets).sockets) :
      Takes r s [] o
  | other {o} (same : o.sockets.listening = s.listening) : Takes r s [] o

theorem Does.acts {r : Receiver} {ts : Tokens} {now : Nat} {s : Sockets} {o : Outcome Receiver}
    (does : r.Does ts now s o) : ∃ p accepted, r.Acts p accepted o := by
  cases does with
  | move grain moved => exact ⟨⟨grain, ts, now, s⟩, _, .move moved⟩
  | drop live => exact ⟨⟨0, ts, now, s⟩, _, .drop live⟩

end Receiver

namespace Sender

/-- What a sender does to the path or to its connection. -/
inductive Deed where
  | connect (result : Except IoError Endpoint)
  | write (stream : Endpoint) (bytes : Bytes)
  | shutdown (stream : Endpoint)
  | close (stream : Endpoint)

/-- What a deed makes of the sockets. An attempt to connect has the result that it is said to have. -/
def Deed.Leads (path : String) (s : Sockets) (deed : Deed) (s' : Sockets) : Prop :=
  match deed with
  | connect result => s.connect path = (result, s')
  | write stream bytes =>
    s' = s.modifyConnection stream.connection fun c =>
      c.setOutgoing stream.side ((c.outgoing stream.side).write bytes)
  | shutdown stream => s' = s.shutdownWrite stream
  | close stream => s' = s.close stream

/-- What deeds, one after another, make of the sockets. -/
def Lead (path : String) (s : Sockets) : List Deed → Sockets → Prop
  | [], s' => s' = s
  | deed :: more, s' => ∃ between, deed.Leads path s between ∧ Lead path between more s'

/-- An attempt to connect. The connection is of no use if the payload has no frame. -/
def connectDeeds (path : String) (payload : Bytes) (s : Sockets) : List Deed :=
  let result := (s.connect path).1
  .connect result ::
    match result, Frame.encode payload with
    | .ok stream, .error _ => [.close stream]
    | _, _ => []

def writeDeeds (stream : Endpoint) (rest : Bytes) (grain : Nat) (s : Sockets) : List Deed :=
  match (s.write stream rest grain).1 with
  | .wrote count =>
    .write stream (rest.take count) ::
      if rest.drop count = [] then [.shutdown stream, .close stream] else []
  | .broken => [.close stream]
  | .blocked => []

/-- What a poll makes a sender do. -/
def deeds (d : Sender) (p : Poll) : List Deed :=
  match d.phase with
  | .connecting payload (.trying _ _) =>
    if (d.context.pollDone p.tokens p.now).isSome then [] else connectDeeds d.path payload p.sockets
  | .writing _ stream rest =>
    if (d.context.pollDone p.tokens p.now).isSome then [.close stream]
    else writeDeeds stream rest p.grain p.sockets
  | _ => []

/-- A connection is closed when the call that has it is dropped. -/
def dropDeeds (d : Sender) : List Deed :=
  match d.phase with
  | .writing _ stream _ => [.close stream]
  | _ => []

/-- A poll that makes a sender do something, with what it does, or a drop. -/
inductive Acts (d : Sender) (p : Poll) : List Deed → Outcome Sender → Prop
  | move {o} (moved : d.move p.grain p.tokens p.now p.sockets = some o) : Acts d p (d.deeds p) o
  | drop (live : d.isOver = false) : Acts d p d.dropDeeds (d.abort p.sockets)

theorem Does.acts {d : Sender} {ts : Tokens} {now : Nat} {s : Sockets} {o : Outcome Sender}
    (does : d.Does ts now s o) : ∃ p deeds, d.Acts p deeds o := by
  cases does with
  | move grain moved => exact ⟨⟨grain, ts, now, s⟩, _, .move moved⟩
  | drop live => exact ⟨⟨0, ts, now, s⟩, _, .drop live⟩

end Sender

namespace Exchange

variable {rule : Option Nat → Exchange → Exchange → Prop} {b c : Nat × Exchange} {k : Nat} {a : Actor}

/-- An actor whose turns are acts of one kind goes through a course of that kind. -/
theorem course_of_run {α δ : Type} {acts : α → Poll → List δ → Outcome α → Prop} (role : α → Role)
    (alone : ∀ {x ts now s m}, (role x).Does ts now s m →
      ∃ p ds o, acts x p ds o ∧ m.role = role o.value ∧ m.log = o.log)
    {x : α} (run : Run rule b c) (here : b.2.actors[k]? = some a) (starts : a.role = role x) :
    ∃ a' x' rounds log, c.2.actors[k]? = some a' ∧ a'.role = role x' ∧
      a'.log = a.log ++ log ∧ Course acts x rounds log x' := by
  induction run with
  | refl => exact ⟨a, x, [], [], here, starts, (List.append_nil _).symm, .start⟩
  | @tail b' c' _ step ih =>
    obtain ⟨a', x', rounds, log, here', plays, logged, course⟩ := ih
    obtain ⟨mover, step, -⟩ := step
    obtain ⟨-, same⟩ | ⟨-, m, does, after⟩ := step.actor here'
    · exact ⟨a', x', rounds, log, same, plays, logged, course⟩
    · rw [plays] at does
      obtain ⟨p, ds, o, act, plays', told⟩ := alone does
      refine ⟨_, o.value, _, _, after, plays', ?_, course.next act⟩
      rw [Actor.after, logged, told, List.append_assoc]

theorem receiver_course_of_run {r : Receiver} (run : Run rule b c) (here : b.2.actors[k]? = some a)
    (role : a.role = .receiver r) : ∃ a' r' rounds log, c.2.actors[k]? = some a' ∧
      a'.role = .receiver r' ∧ a'.log = a.log ++ log ∧ Course Receiver.Acts r rounds log r' := by
  refine course_of_run .receiver (fun does => ?_) run here role
  obtain ⟨o, alone, rfl⟩ := Role.does_receiver does
  obtain ⟨p, accepted, acts⟩ := alone.acts
  exact ⟨p, accepted, o, acts, rfl, rfl⟩

theorem sender_course_of_run {d : Sender} (run : Run rule b c) (here : b.2.actors[k]? = some a)
    (role : a.role = .sender d) : ∃ a' d' rounds log, c.2.actors[k]? = some a' ∧
      a'.role = .sender d' ∧ a'.log = a.log ++ log ∧ Course Sender.Acts d rounds log d' := by
  refine course_of_run .sender (fun does => ?_) run here role
  obtain ⟨o, alone, rfl⟩ := Role.does_sender does
  obtain ⟨p, deeds, acts⟩ := alone.acts
  exact ⟨p, deeds, o, acts, rfl, rfl⟩

end Exchange

end EvidenceExchange
