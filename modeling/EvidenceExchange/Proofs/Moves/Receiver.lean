import EvidenceExchange.Proofs.Moves.Result
import EvidenceExchange.Proofs.Sockets

namespace EvidenceExchange

theorem Transport.accept_eq_some {l : SocketListener} {s : Sockets}
    {o : Outcome (Except IoError Endpoint)} (h : accept l s = some o) :
    (∃ cause, s.acceptFault = some cause ∧ o = ⟨.error cause, s, []⟩) ∨
      ∃ stream s', s.acceptFault = none ∧ s.accept l.entry = some (stream, s') ∧
        o = ⟨.ok stream, s', [.connectionAccepted l.path]⟩ := by
  unfold accept at h
  split at h
  next cause fault =>
    cases h
    exact .inl ⟨cause, fault, rfl⟩
  next fault =>
    obtain ⟨⟨stream, s'⟩, hpop, rfl⟩ := Option.map_eq_some_iff.mp h
    exact .inr ⟨stream, s', fault, hpop, rfl⟩

namespace Receiver

inductive Turn (r : Receiver) (s : Sockets) : Outcome Receiver → Prop
  | quit {result} (phase : r.phase = .starting) (fails : result.Fails) :
      Turn r s ⟨r.goTo (.settled result), s, []⟩
  | start (phase : r.phase = .starting) (valid : r.config.validate = .ok ()) :
      Turn r s ⟨r.goTo .locking, s, []⟩
  | quitLocking {result} (phase : r.phase = .locking) (fails : result.Fails) :
      Turn r s ⟨r.goTo (.settled result), s.detach (.openFile (Transport.lockPath r.path)), []⟩
  | lock {l next} (phase : r.phase = .locking) (locked : (Transport.lock r.path s).value = .ok l)
      (ahead : next = .reclaiming l ∨ next = .binding l) :
      Turn r s ⟨r.goTo next, (Transport.lock r.path s).sockets, (Transport.lock r.path s).log⟩
  | lockFails {result e} (phase : r.phase = .locking)
      (refused : (Transport.lock r.path s).value = .error e) (fails : result.Fails) :
      Turn r s ⟨r.goTo (.settled result), (Transport.lock r.path s).sockets, []⟩
  | release {l result}
      (phase : r.phase = .reclaiming l ∨ (∃ removal, r.phase = .removed l removal) ∨ r.phase = .binding l)
      (fails : result.Fails) : Turn r s ⟨r.goTo (.settled result), Transport.unlock l s, []⟩
  | look {l next} (phase : r.phase = .reclaiming l)
      (seen : next = .removing l ∧ Transport.hasSocket r.path s = true ∨ next = .binding l) :
      Turn r s ⟨r.goTo next, s, []⟩
  | quitRemoving {l result} (phase : r.phase = .removing l) (fails : result.Fails) :
      Turn r s ⟨r.goTo (.settled result), (Transport.unlock l s).detach (.unlink r.path), []⟩
  | remove {l} (phase : r.phase = .removing l) :
      Turn r s ⟨r.goTo (.removed l (Transport.remove r.path s).1), (Transport.remove r.path s).2, []⟩
  | reclaimed {l removal log} (phase : r.phase = .removed l removal) (silent : deliveries log = []) :
      Turn r s ⟨r.goTo (.binding l), s, log⟩
  | bind {l li deadline} (phase : r.phase = .binding l)
      (bound : (Transport.listen r.path l s).value = .ok li) :
      Turn r s ⟨r.goTo (.accepting li deadline), (Transport.listen r.path l s).sockets,
        (Transport.listen r.path l s).log⟩
  | bindFails {l result e} (phase : r.phase = .binding l)
      (unbound : (Transport.listen r.path l s).value = .error e) (fails : result.Fails) :
      Turn r s ⟨r.goTo (.settled result), (Transport.listen r.path l s).sockets, []⟩
  | overflow {l li} (phase : r.phase = .binding l)
      (bound : (Transport.listen r.path l s).value = .ok li) :
      Turn r s ⟨r.goTo (.settled .overflowed),
        (Transport.closeListener li (Transport.listen r.path l s).sockets).sockets,
        (Transport.listen r.path l s).log ++
          (Transport.closeListener li (Transport.listen r.path l s).sockets).log⟩
  | giveUp {li deadline result log} (phase : r.phase = .accepting li deadline)
      (fails : result.Fails) (silent : deliveries log = []) :
      Turn r s ⟨r.goTo (.settled result), (Transport.closeListener li s).sockets, log⟩
  | accept {li deadline stream s' log} (phase : r.phase = .accepting li deadline)
      (accepted : s.accept li.entry = some (stream, s')) (silent : deliveries log = []) :
      Turn r s ⟨r.goTo (.reading stream deadline (.new .new)),
        (Transport.closeListener li s').sockets, log⟩
  | hangUp {stream deadline reader result log} (phase : r.phase = .reading stream deadline reader)
      (fails : result.Fails) (silent : deliveries log = []) :
      Turn r s ⟨r.goTo (.settled result), s.close stream, log⟩
  | read {stream deadline reader grain bytes s' reader'}
      (phase : r.phase = .reading stream deadline reader)
      (took : s.read stream grain = (.chunk bytes, s'))
      (undecided : (reader.feed bytes).poll = (none, reader')) :
      Turn r s ⟨r.goTo (.reading stream deadline reader'), s', []⟩
  | readFails {stream deadline reader grain outcome s' result log}
      (phase : r.phase = .reading stream deadline reader)
      (took : s.read stream grain = (outcome, s')) (fails : result.Fails)
      (silent : deliveries log = []) :
      Turn r s ⟨r.goTo (.settled result), s'.close stream, log⟩
  | receive {stream deadline reader grain outcome s' payload bundle log}
      (phase : r.phase = .reading stream deadline reader)
      (took : s.read stream grain = (outcome, s'))
      (decided : (∃ bytes, outcome = .chunk bytes ∧ (reader.feed bytes).poll.1 = some (.ok payload)) ∨
        outcome = .atEnd ∧ reader.finish = .ok payload)
      (decoded : r.codec.decode payload = .ok bundle)
      (told : deliveries log = [⟨bundle.length, payload.length, Digest.short payload⟩]) :
      Turn r s ⟨r.goTo (.settled (.returned (.ok bundle))), s'.close stream, log⟩

variable {r : Receiver} {ts : Tokens} {now : Nat} {s : Sockets}

theorem start_turn (phase : r.phase = .starting) (ts : Tokens) (now : Nat) :
    r.Turn s (r.start ts now s) := by
  unfold start
  split
  next => exact .quit phase (by simp)
  next valid =>
    split
    next => exact .quit phase (by simp)
    next => exact .start phase valid

theorem lock_turn (phase : r.phase = .locking) (ts : Tokens) (now : Nat) :
    r.Turn s (r.lock ts now s) := by
  unfold Receiver.lock
  split
  next => exact .quitLocking phase (by simp)
  next =>
    dsimp only
    split
    next refused => exact .lockFails phase refused (by simp)
    next locked => exact .lock phase locked (by split <;> simp)

theorem reclaim_turn {l : SocketLock} (phase : r.phase = .reclaiming l) (ts : Tokens) (now : Nat) :
    r.Turn s (r.reclaim l ts now s) := by
  unfold Receiver.reclaim
  split
  next => exact .release (.inl phase) (by simp)
  next => exact .look phase (by split <;> simp [*])

theorem remove_turn {l : SocketLock} (phase : r.phase = .removing l) (ts : Tokens) (now : Nat) :
    r.Turn s (r.remove l ts now s) := by
  unfold Receiver.remove
  split
  next => exact .quitRemoving phase (by simp)
  next => exact .remove phase

theorem reclaimed_turn {l : SocketLock} {removal : Except IoError Unit}
    (phase : r.phase = .removed l removal) (ts : Tokens) (now : Nat) :
    r.Turn s (r.reclaimed l removal ts now s) := by
  have silent := deliveries_afterRemoval r.path removal
  unfold Receiver.reclaimed
  split
  next => exact .release (.inr (.inl ⟨removal, phase⟩)) (by simp)
  next =>
    split
    next => exact .release (.inr (.inl ⟨removal, phase⟩)) (by simp)
    next reported =>
      rw [reported] at silent
      exact .reclaimed phase silent

theorem bind_cases (r : Receiver) (l : SocketLock) (now : Nat) (s : Sockets) :
    (∃ e, (Transport.listen r.path l s).value = .error e ∧
      r.bind l now s = r.refuse (.bindFailed r.path e) (Transport.listen r.path l s).sockets) ∨
    (∃ li deadline, (Transport.listen r.path l s).value = .ok li ∧
      (Instant.ofMillis now).add? r.config.timeout = some deadline ∧
      r.bind l now s = ⟨r.goTo (.accepting li deadline), (Transport.listen r.path l s).sockets,
        (Transport.listen r.path l s).log⟩) ∨
    ∃ li, (Transport.listen r.path l s).value = .ok li ∧
      (Instant.ofMillis now).add? r.config.timeout = none ∧
      r.bind l now s = ⟨r.goTo (.settled .overflowed),
        (Transport.closeListener li (Transport.listen r.path l s).sockets).sockets,
        (Transport.listen r.path l s).log ++
          (Transport.closeListener li (Transport.listen r.path l s).sockets).log⟩ := by
  unfold Receiver.bind
  generalize Transport.listen r.path l s = o
  generalize (Instant.ofMillis now).add? r.config.timeout = end_
  obtain ⟨value, s', log⟩ := o
  cases value with
  | error e => exact .inl ⟨e, rfl, rfl⟩
  | ok li =>
    cases end_ with
    | some deadline => exact .inr (.inl ⟨li, deadline, rfl, rfl, rfl⟩)
    | none => exact .inr (.inr ⟨li, rfl, rfl, rfl⟩)

theorem bind_turn {l : SocketLock} (phase : r.phase = .binding l) (now : Nat) :
    r.Turn s (r.bind l now s) := by
  obtain ⟨e, unbound, binds⟩ | ⟨li, deadline, bound, -, binds⟩ | ⟨li, bound, -, binds⟩ :=
    r.bind_cases l now s <;> rw [binds]
  · exact .bindFails phase unbound (by simp)
  · exact .bind phase bound
  · exact .overflow phase bound

theorem accept_turn {li : SocketListener} {deadline : Instant} {o : Outcome Receiver}
    (phase : r.phase = .accepting li deadline) (h : r.accept li deadline ts now s = some o) :
    r.Turn s o := by
  have silent := deliveries_closeListener li s
  unfold Receiver.accept at h
  dsimp only at h
  split at h
  next =>
    cases h
    exact .giveUp phase (by simp) (by simp [silent]; rfl)
  next =>
    split at h
    next accepted haccept =>
      obtain ⟨cause, -, rfl⟩ | ⟨stream, s', -, hpop, rfl⟩ := Transport.accept_eq_some haccept
      · cases h
        exact .giveUp phase (by simp) (by simp [silent]; rfl)
      · cases h
        refine .accept phase hpop ?_
        rw [deliveries_append, deliveries_append, deliveries_closeListener]
        rfl
    next =>
      split at h
      next =>
        cases h
        exact .giveUp phase (by simp) (by simp [silent]; rfl)
      next => cases h

theorem decide_turn {stream : Endpoint} {deadline : Instant} {reader : FrameReader} {grain : Nat}
    {outcome : Sockets.ReadOutcome} {s' : Sockets} {result : Except FrameError Bytes}
    (phase : r.phase = .reading stream deadline reader)
    (took : s.read stream grain = (outcome, s'))
    (decided : ∀ payload, result = .ok payload →
      (∃ bytes, outcome = .chunk bytes ∧ (reader.feed bytes).poll.1 = some (.ok payload)) ∨
        outcome = .atEnd ∧ reader.finish = .ok payload) :
    r.Turn s (r.decide result (s'.close stream)) := by
  unfold decide
  split
  next => exact .readFails phase took (by simp) rfl
  next payload =>
    unfold Receiver.decode
    dsimp only
    split
    next => exact .readFails phase took (by simp) rfl
    next bundle decoded => exact .receive phase took (decided payload rfl) decoded rfl

theorem read_turn {stream : Endpoint} {deadline : Instant} {reader : FrameReader} {grain : Nat}
    {o : Outcome Receiver} (phase : r.phase = .reading stream deadline reader)
    (h : r.read stream deadline reader grain ts now s = some o) : r.Turn s o := by
  unfold Receiver.read at h
  split at h
  next =>
    cases h
    exact .hangUp phase (by simp) rfl
  next =>
    split at h
    next bytes s' took =>
      split at h
      next result _ hpoll =>
        cases h
        refine decide_turn phase took fun payload hok => .inl ⟨bytes, rfl, ?_⟩
        rw [hpoll, hok]
      next reader' hpoll =>
        cases h
        exact .read phase took hpoll
    next s' took =>
      cases h
      exact decide_turn phase took fun payload hok => .inr ⟨rfl, hok⟩
    next cause s' took =>
      cases h
      exact decide_turn phase took fun payload hok => by cases hok
    next s' took =>
      split at h
      next =>
        cases h
        obtain rfl := Sockets.read_blocked took
        exact .hangUp phase (by simp) rfl
      next => cases h

theorem abort_turn (live : r.isOver = false) : r.Turn s (r.abort s) := by
  unfold abort
  dsimp only
  split
  next phase => exact .quit phase (by simp)
  next phase => exact .quitLocking phase (by simp)
  next phase => exact .quitRemoving phase (by simp)
  next phase => exact .release (.inl phase) (by simp)
  next phase => exact .release (.inr (.inl ⟨_, phase⟩)) (by simp)
  next phase => exact .release (.inr (.inr phase)) (by simp)
  next li _ phase => exact .giveUp phase (by simp) (deliveries_closeListener li s)
  next phase => exact .hangUp phase (by simp) rfl
  next phase => simp [isOver, phase] at live

theorem turn_of_does {o : Outcome Receiver} (h : r.Does ts now s o) : r.Turn s o := by
  cases h with
  | drop live => exact abort_turn live
  | move grain h =>
    unfold Receiver.move at h
    split at h
    next phase =>
      cases h
      exact start_turn phase ts now
    next phase =>
      cases h
      exact lock_turn phase ts now
    next l phase =>
      cases h
      exact reclaim_turn phase ts now
    next l phase =>
      cases h
      exact remove_turn phase ts now
    next l removal phase =>
      cases h
      exact reclaimed_turn phase ts now
    next l phase =>
      cases h
      exact bind_turn phase now
    next phase => exact accept_turn phase h
    next phase => exact read_turn phase h
    next => cases h

/-- How far a receiver has come. -/
def Phase.rank : Phase → Nat
  | starting => 0
  | locking => 1
  | reclaiming _ => 2
  | removing _ => 3
  | removed .. => 4
  | binding _ => 5
  | accepting .. => 6
  | reading .. => 7
  | settled _ => 8

/-- One and the same call, later on. -/
def Ahead (r r' : Receiver) : Prop := ∃ phase, r' = r.goTo phase ∧ r.phase.rank ≤ phase.rank

theorem Ahead.refl (r : Receiver) : r.Ahead r := ⟨r.phase, rfl, le_rfl⟩

theorem Ahead.trans {r r' r'' : Receiver} (h : r.Ahead r') (h' : r'.Ahead r'') : r.Ahead r'' := by
  obtain ⟨phase, rfl, le⟩ := h
  obtain ⟨phase', rfl, le'⟩ := h'
  exact ⟨phase', rfl, le.trans le'⟩

/-- No phase comes back once it is over. -/
theorem Turn.ahead {o : Outcome Receiver} (h : r.Turn s o) : r.Ahead o.value := by
  cases h with
  | lock phase _ ahead => exact ⟨_, rfl, by obtain rfl | rfl := ahead <;> simp [phase, Phase.rank]⟩
  | look phase seen =>
    exact ⟨_, rfl, by obtain ⟨rfl, -⟩ | rfl := seen <;> simp [phase, Phase.rank]⟩
  | release phase =>
    exact ⟨_, rfl, by obtain phase | ⟨_, phase⟩ | phase := phase <;> simp [phase, Phase.rank]⟩
  | quit phase | start phase | quitLocking phase | lockFails phase | quitRemoving phase | remove phase
  | reclaimed phase | bind phase | bindFails phase | overflow phase | giveUp phase | accept phase
  | hangUp phase | read phase | readFails phase | receive phase =>
    exact ⟨_, rfl, by simp [phase, Phase.rank]⟩

/-- Once a receiver reads, it changes no files. -/
theorem Turn.sameFiles_of_reading {o : Outcome Receiver} {stream : Endpoint} {deadline : Instant}
    {reader : FrameReader} (h : r.Turn s o) (phase : r.phase = .reading stream deadline reader) :
    s.SameFiles o.sockets := by
  have read : ∀ {stream grain outcome s'}, s.read stream grain = (outcome, s') → s.SameFiles s' := by
    intro stream grain outcome s' took
    have same := s.sameFiles_read stream grain
    rwa [took] at same
  cases h with
  | release other => obtain other | ⟨_, other⟩ | other := other <;> cases phase.symm.trans other
  | quit other | start other | quitLocking other | lock other | lockFails other | look other
  | quitRemoving other | remove other | reclaimed other | bind other | bindFails other | overflow other
  | giveUp other | accept other => cases phase.symm.trans other
  | hangUp => exact (Sockets.SameFiles.refl s).close _
  | read _ took => exact read took
  | readFails _ took | receive _ took => exact (read took).close _

end Receiver

end EvidenceExchange
