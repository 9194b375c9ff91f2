import EvidenceExchange.Proofs.Locking
import EvidenceExchange.Proofs.Moves.Receiver

namespace EvidenceExchange

namespace Receiver

/-- The lock that a receiver holds. -/
def lock? (r : Receiver) : Option SocketLock :=
  match r.phase with
  | .reclaiming l | .removing l | .removed l _ | .binding l => some l
  | .accepting li _ => some li.lock
  | _ => none

/-- What a receive leaves under way when it is cut off: the opening of its lock file, or the removal of the
socket that it has found at its path. -/
def leaves? (r : Receiver) : Option FileCall :=
  match r.phase with
  | .locking => some (.openFile (Transport.lockPath r.path))
  | .removing _ => some (.unlink r.path)
  | _ => none

theorem openFile_of_leaves? {r : Receiver} {call : FileCall} (leaves : r.leaves? = some call)
    (elsewhere : ∀ l, r.phase ≠ .removing l) : call = .openFile (Transport.lockPath r.path) := by
  unfold leaves? at leaves
  split at leaves
  next => exact (Option.some.inj leaves).symm
  next phase => exact absurd phase (elsewhere _)
  next => cases leaves

theorem Turn.detached {r : Receiver} {s : Sockets} {o : Outcome Receiver} (h : r.Turn s o) :
    o.sockets.detached = s.detached ∨
      ∃ call, r.leaves? = some call ∧ o.sockets.detached = s.detached ++ [call] ∧ o.value.isOver = true := by
  cases h with
  | quitLocking phase | quitRemoving phase => exact .inr ⟨_, by simp only [leaves?, phase], rfl, rfl⟩
  | quit | start | release | look | reclaimed | hangUp => exact .inl rfl
  | lock | lockFails => exact .inl (Transport.lock_detached _ _)
  | remove => exact .inl (Transport.remove_detached _ _)
  | bind | bindFails => exact .inl (Transport.listen_detached _ _ _)
  | overflow => exact .inl (by simp)
  | giveUp => exact .inl (Transport.closeListener_detached _ _)
  | accept _ accepted =>
    exact .inl ((Transport.closeListener_detached _ _).trans (Sockets.sameFiles_accept accepted).detached)
  | read _ took | readFails _ took | receive _ took =>
    have kept := Sockets.read_detached took
    exact .inl kept

/-- A receive whose context lasts leaves nothing under way. -/
theorem move_detached {r : Receiver} {grain : Nat} {ts : Tokens} {now : Nat} {s : Sockets}
    {o : Outcome Receiver} (lasts : r.context.pollDone ts now = none)
    (moved : r.move grain ts now s = some o) : o.sockets.detached = s.detached := by
  obtain same | ⟨call, leaves, -, -⟩ := (turn_of_does (.move grain moved)).detached
  · exact same
  · unfold leaves? at leaves
    split at leaves
    next phase =>
      simp only [move, phase, lock, lasts] at moved
      split at moved <;> cases moved <;> exact Transport.lock_detached _ _
    next phase =>
      simp only [move, phase, remove, lasts] at moved
      cases moved
      exact Transport.remove_detached _ _
    next => cases leaves

/-- Nothing is removed but a socket that was seen. -/
theorem Turn.seen {r : Receiver} {s : Sockets} {o : Outcome Receiver} (h : r.Turn s o) {l : SocketLock}
    (next : o.value.phase = .removing l) :
    r.phase = .reclaiming l ∧ Transport.hasSocket r.path s = true := by
  cases h with
  | look phase seen =>
    obtain ⟨rfl, seen⟩ | rfl := seen <;> cases next
    exact ⟨phase, seen⟩
  | lock _ _ ahead => obtain rfl | rfl := ahead <;> cases next
  | _ => cases next

/-- A receiver with a lock holds the one of its own path, and the socket that it is about to remove, or
that it listens on, stands there. -/
def Secure (r : Receiver) (s : Sockets) : Prop :=
  match r.phase with
  | .locking => r.path ≠ ""
  | .reclaiming l | .removed l _ | .binding l => r.path ≠ "" ∧ s.Locks r.path l.entry
  | .removing l =>
    r.path ≠ "" ∧ s.Locks r.path l.entry ∧ ∃ e, s.fs.entryAt? r.path = some e ∧ e.node = .socket
  | .accepting li _ => li.path = r.path ∧ s.Locks r.path li.lock.entry ∧ li.Stands s
  | .starting | .reading .. | .settled _ => True

theorem Secure.locks {r : Receiver} {s : Sockets} {l : SocketLock} (h : r.Secure s)
    (hl : r.lock? = some l) : s.Locks r.path l.entry := by
  unfold lock? at hl
  unfold Secure at h
  cases hphase : r.phase with
  | starting | locking | reading | settled => simp only [hphase, reduceCtorEq] at hl
  | reclaiming | removed | binding =>
    simp only [hphase] at h hl
    cases hl
    exact h.2
  | removing | accepting =>
    simp only [hphase] at h hl
    cases hl
    exact h.2.1

/-- Of the files, a receiver needs none but its socket and its lock file. -/
theorem Secure.transfer {r : Receiver} {s s' : Sockets} (h : r.Secure s)
    (locks : ∀ l, r.lock? = some l → s'.Locks r.path l.entry)
    (stands : ∀ l e, r.lock? = some l → s.fs.entryAt? r.path = some e →
      s'.fs.entryAt? r.path = some e) : r.Secure s' := by
  unfold Secure at h ⊢
  cases hphase : r.phase with
  | starting | reading | settled => trivial
  | locking =>
    simp only [hphase] at h
    exact h
  | reclaiming l | removed l _ | binding l =>
    simp only [hphase] at h
    exact ⟨h.1, locks l (by simp [lock?, hphase])⟩
  | removing l =>
    simp only [hphase] at h
    have hl : r.lock? = some l := by simp [lock?, hphase]
    obtain ⟨named, -, e, he, socket⟩ := h
    exact ⟨named, locks l hl, e, stands l e hl he, socket⟩
  | accepting li deadline =>
    simp only [hphase] at h
    have hl : r.lock? = some li.lock := by simp [lock?, hphase]
    obtain ⟨hpath, -, e, he, hid⟩ := h
    exact ⟨hpath, locks _ hl, e, hpath ▸ stands _ e hl (hpath ▸ he), hid⟩

theorem Secure.spared {r : Receiver} {s s' : Sockets} {mine : Option Nat} (h : r.Secure s)
    (spares : s.Spares mine s') (other : ∀ l, r.lock? = some l → some l.entry ≠ mine) :
    r.Secure s' :=
  h.transfer (fun l hl => spares.lock (other l hl) (h.locks hl))
    (fun l _ hl => spares.socket (other l hl) (h.locks hl))

theorem path_ne_empty {c : ReceiverConfig} (h : c.validate = .ok ()) : c.socket ≠ "" := by
  rintro hempty
  obtain ⟨_, hsocket, -⟩ := Except.bind_eq_ok_iff.mp h
  simp [checkSocket, hempty] at hsocket

/-- What a receiver does with its path. -/
structure Owns (r : Receiver) (s : Sockets) (o : Outcome Receiver) : Prop where
  spares : s.Spares (r.lock?.map SocketLock.entry) o.sockets
  secure : o.value.Secure o.sockets
  lock : ∀ l, o.value.lock? = some l → r.lock? = some l ∨ l.entry ∉ s.locked

theorem Owns.of_settled {r : Receiver} {s s' : Sockets} {result : CallResult Evidence.Bundle}
    {log : List LogEvent} (spares : s.Spares (r.lock?.map SocketLock.entry) s') :
    r.Owns s ⟨r.goTo (.settled result), s', log⟩ :=
  ⟨spares, trivial, fun l hl => by cases hl⟩

theorem closeListener_owns {r : Receiver} {s : Sockets} {li : SocketListener} {deadline : Instant}
    (wf : s.fs.WellFormed) (secure : r.Secure s) (phase : r.phase = .accepting li deadline) :
    s.Spares (r.lock?.map SocketLock.entry) (Transport.closeListener li s).sockets := by
  simp only [Secure, phase] at secure
  obtain ⟨hpath, held, stands⟩ := secure
  have closed := Transport.closeListener_spares wf li (hpath ▸ held) stands
  simpa [lock?, phase] using closed

theorem Turn.owns {r : Receiver} {s : Sockets} {o : Outcome Receiver} (wf : s.fs.WellFormed)
    (secure : r.Secure s) (h : r.Turn s o) : r.Owns s o := by
  have same {stream deadline reader} (phase : r.phase = .reading stream deadline reader) :=
    h.sameFiles_of_reading phase
  cases h with
  | quit => exact .of_settled (.refl wf)
  | quitLocking => exact .of_settled ((Sockets.Spares.refl wf).detach _)
  | start _ valid => exact ⟨.refl wf, path_ne_empty valid, fun l hl => by cases hl⟩
  | lock phase locked ahead =>
    simp only [Secure, phase] at secure
    obtain ⟨spares, locks⟩ := Transport.lock_spec wf r.path
    obtain ⟨fresh, held⟩ := locks _ locked
    refine ⟨spares.of_none _, ?_, fun l' hl' => .inr ?_⟩
    · obtain rfl | rfl := ahead <;> exact ⟨secure, held⟩
    · obtain rfl | rfl := ahead <;> cases hl' <;> exact fresh
  | lockFails => exact .of_settled ((Transport.lock_spec wf r.path).1.of_none _)
  | @release l _ phase =>
    have hlock : r.lock? = some l := by
      obtain phase | ⟨_, phase⟩ | phase := phase <;> simp [lock?, phase]
    exact .of_settled (hlock ▸ Transport.unlock_spares wf l)
  | @look l _ phase seen =>
    have hlock : r.lock? = some l := by simp [lock?, phase]
    simp only [Secure, phase] at secure
    refine ⟨.refl wf, ?_, fun l' hl' => .inl ?_⟩
    · obtain ⟨rfl, stands⟩ | rfl := seen
      · exact ⟨secure.1, secure.2, Transport.hasSocket_iff.mp stands⟩
      · exact secure
    · obtain ⟨rfl, -⟩ | rfl := seen <;> cases hl' <;> exact hlock
  | @quitRemoving l _ phase =>
    have hlock : r.lock? = some l := by simp [lock?, phase]
    exact .of_settled (hlock ▸ (Transport.unlock_spares wf l).detach _)
  | @remove l phase =>
    have hlock : r.lock? = some l := by simp [lock?, phase]
    simp only [Secure, phase] at secure
    obtain ⟨named, held, e, stands, socket⟩ := secure
    obtain ⟨spares, held'⟩ := Transport.remove_spec wf held stands socket
    refine ⟨hlock ▸ spares, ⟨named, held'⟩, fun l' hl' => .inl ?_⟩
    cases hl'
    exact hlock
  | @reclaimed l _ _ phase =>
    have hlock : r.lock? = some l := by simp [lock?, phase]
    simp only [Secure, phase] at secure
    refine ⟨.refl wf, secure, fun l' hl' => .inl ?_⟩
    cases hl'
    exact hlock
  | @bind l li _ phase bound =>
    have hlock : r.lock? = some l := by simp [lock?, phase]
    simp only [Secure, phase] at secure
    obtain ⟨spares, listens⟩ := Transport.listen_spec wf l secure.1
    obtain ⟨hpath, rfl, stands, held⟩ := listens li bound
    refine ⟨hlock ▸ spares, ⟨hpath, held secure.2, stands⟩, fun l' hl' => .inl ?_⟩
    cases hl'
    exact hlock
  | @bindFails l _ _ phase =>
    have hlock : r.lock? = some l := by simp [lock?, phase]
    simp only [Secure, phase] at secure
    exact .of_settled (hlock ▸ (Transport.listen_spec wf l secure.1).1)
  | @overflow l li phase bound =>
    have hlock : r.lock? = some l := by simp [lock?, phase]
    simp only [Secure, phase] at secure
    obtain ⟨spares, listens⟩ := Transport.listen_spec wf l secure.1
    obtain ⟨hpath, rfl, stands, held⟩ := listens li bound
    refine .of_settled ?_
    rw [hlock]
    exact spares.trans
      (Transport.closeListener_spares spares.wellFormed li (hpath ▸ held secure.2) stands)
  | giveUp phase => exact .of_settled (closeListener_owns wf secure phase)
  | @accept li deadline _ s' _ phase accepted =>
    have same := Sockets.sameFiles_accept accepted
    have spares : s.Spares (r.lock?.map SocketLock.entry) s' := .of_sameFiles wf same
    have secure' : r.Secure s' := by
      refine secure.transfer (fun l hl => ?_) fun l e hl stands => same.fs ▸ stands
      have held := secure.locks hl
      exact ⟨same.locked ▸ held.held, same.fs ▸ held.file⟩
    exact ⟨spares.trans (closeListener_owns spares.wellFormed secure' phase), trivial,
      fun l hl => by cases hl⟩
  | hangUp phase | readFails phase | receive phase => exact .of_settled (.of_sameFiles wf (same phase))
  | read phase => exact ⟨.of_sameFiles wf (same phase), trivial, fun l hl => by cases hl⟩

end Receiver

end EvidenceExchange
