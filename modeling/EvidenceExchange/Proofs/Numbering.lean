import EvidenceExchange.Proofs.Disturbance
import EvidenceExchange.Proofs.Locking
import EvidenceExchange.Proofs.Moves.Receiver

namespace EvidenceExchange

theorem FileSystem.Leads.entry_mem {fs : FileSystem} {aim : Aim} {links directory : Nat}
    {way : List String} {e : Entry} (h : Leads fs aim links directory way (.entry e)) :
    e ∈ fs.entries := by
  generalize hp : Place.entry e = place at h
  induction h with
  | finish | vacant => cases hp
  | stay _ _ ih | up _ ih | enter _ _ _ _ _ _ ih | follow _ _ _ _ _ _ _ ih => exact ih hp
  | found _ here _ =>
    cases hp
    exact (mem_of_find? here).1

theorem FileSystem.WellFormed.openFile_lt {fs fs' : FileSystem} (wf : fs.WellFormed) {path : String}
    {id : Nat} (h : fs.openFile path = .ok (id, fs')) : id < fs'.fresh := by
  obtain ⟨wf', -, again⟩ := openFile_eq_ok wf h
  obtain ⟨e, he, -, rfl⟩ := openFile_eq_ok_self_iff.mp again
  obtain ⟨-, leads⟩ := resolve_eq_ok_iff.mp he
  exact wf'.lt e leads.entry_mem

/-- What any move comes to. -/
structure Sockets.Onward (s s' : Sockets) : Prop where
  fs : s.fs.Onward s'.fs
  locked : s.fs.WellFormed → ∀ entry ∈ s'.locked, entry ∈ s.locked ∨ entry < s'.fs.fresh

/-- All locked files have been made. -/
def Sockets.LocksMade (s : Sockets) : Prop := ∀ entry ∈ s.locked, entry < s.fs.fresh

namespace Sockets.Onward

variable {s s' s'' : Sockets}

theorem of_subset (fs : s.fs.Onward s'.fs) (locked : s'.locked ⊆ s.locked) : s.Onward s' :=
  ⟨fs, fun _ _ held => .inl (locked held)⟩

theorem of_eq (fs : s'.fs = s.fs) (locked : s'.locked = s.locked) : s.Onward s' :=
  .of_subset (fs ▸ .refl s.fs) (locked ▸ List.Subset.refl _)

theorem of_sameFiles (h : s.SameFiles s') : s.Onward s' := .of_eq h.fs h.locked

theorem trans (h : s.Onward s') (h' : s'.Onward s'') : s.Onward s'' where
  fs := h.fs.trans h'.fs
  locked wf entry held := by
    obtain held | made := h'.locked (h.fs.wellFormed wf) entry held
    · exact (h.locked wf entry held).imp_right fun made => made.trans_le h'.fs.fresh_le
    · exact .inr made

theorem locksMade (h : s.Onward s') (wf : s.fs.WellFormed) (made : s.LocksMade) :
    s'.LocksMade := by
  intro entry held
  obtain held | lt := h.locked wf entry held
  · exact (made entry held).trans_le h.fs.fresh_le
  · exact lt

end Sockets.Onward

namespace Transport

theorem onward_lock (path : String) (s : Sockets) : s.Onward (lock path s).sockets := by
  unfold lock
  split
  next => exact .of_sameFiles (.refl s)
  next entry fs opened =>
    split
    next => exact .of_subset (.openFile opened) (List.Subset.refl _)
    next =>
      refine ⟨.openFile opened, fun wf id held => ?_⟩
      obtain rfl | held := List.mem_cons.mp held
      · exact .inr (wf.openFile_lt opened)
      · exact .inl held

theorem onward_unlock (l : SocketLock) (s : Sockets) : s.Onward (unlock l s) :=
  .of_subset (.refl s.fs) List.erase_subset

theorem onward_remove (path : String) (s : Sockets) : s.Onward (remove path s).2 := by
  obtain ⟨fs, removed, result⟩ | ⟨e, result⟩ := remove_cases path s <;> rw [result]
  · exact .of_subset (.unlink removed) (List.Subset.refl _)
  · exact .of_sameFiles (.refl s)

theorem onward_reclaim (path : String) (l : SocketLock) (s : Sockets) :
    s.Onward (reclaim path l s).sockets := by
  rw [reclaim_sockets]
  split
  · exact onward_remove path s
  · exact .of_sameFiles (.refl s)

theorem onward_listen (path : String) (l : SocketLock) (s : Sockets) :
    s.Onward (listen path l s).sockets := by
  unfold listen Sockets.bind
  cases made : Sockets.bindEntry s.fs path with
  | error e => exact onward_unlock l s
  | ok bound => exact .of_subset (FileSystem.Onward.bindEntry made).1 (List.Subset.refl _)

theorem onward_closeListener (li : SocketListener) (s : Sockets) :
    s.Onward (closeListener li s).sockets := by
  have closed : ∀ fs, s.fs.Onward fs →
      s.Onward (unlock li.lock ({ s with fs := fs }.unlisten li.entry)) := by
    intro fs onward
    refine .trans (.of_subset ?_ ?_) (onward_unlock li.lock _)
    · rwa [Sockets.unlisten_fs]
    · rw [Sockets.unlisten_locked]
      exact List.Subset.refl _
  unfold closeListener
  cases removed : s.fs.unlink li.path with
  | ok fs => exact closed fs (.unlink removed)
  | error e => exact closed s.fs (.refl s.fs)

end Transport

theorem Receiver.Turn.onward {r : Receiver} {s : Sockets} {o : Outcome Receiver} (h : r.Turn s o) :
    s.Onward o.sockets := by
  have same {stream deadline reader} (phase : r.phase = .reading stream deadline reader) :=
    h.sameFiles_of_reading phase
  cases h with
  | quit | start | look | reclaimed => exact .of_sameFiles (.refl s)
  | quitLocking => exact .of_eq rfl rfl
  | lock | lockFails => exact Transport.onward_lock r.path s
  | release => exact Transport.onward_unlock _ s
  | quitRemoving => exact .of_subset (.refl s.fs) List.erase_subset
  | remove => exact Transport.onward_remove r.path s
  | bind | bindFails => exact Transport.onward_listen r.path _ s
  | overflow =>
    exact (Transport.onward_listen r.path _ s).trans (Transport.onward_closeListener _ _)
  | giveUp => exact Transport.onward_closeListener _ s
  | accept _ accepted =>
    have same := Sockets.sameFiles_accept accepted
    exact (Sockets.Onward.of_sameFiles same).trans (Transport.onward_closeListener _ _)
  | hangUp phase | read phase | readFails phase | receive phase => exact .of_sameFiles (same phase)

theorem Exchange.Step.onward {mover : Option Nat} {a b : Nat × Exchange}
    (h : Exchange.Step mover a b) (wf : a.2.sockets.fs.WellFormed) :
    a.2.sockets.Onward b.2.sockets := by
  cases h with
  | wait | cancel => exact .of_sameFiles (.refl _)
  | @carryOut now x call => exact .of_subset (.call x.sockets.fs call) (List.Subset.refl _)
  | @move now x i c m here started does =>
    cases hrole : c.role with
    | receiver r =>
      rw [hrole] at does
      obtain ⟨o, ho, rfl⟩ := Role.does_receiver does
      exact (Receiver.turn_of_does ho).onward
    | sender d =>
      rw [hrole] at does
      obtain ⟨o, ho, rfl⟩ := Role.does_sender does
      exact .of_sameFiles (Sender.turn_of_does ho).sameFiles
    | peer p =>
      rw [hrole] at does
      obtain rfl | ⟨grain, o, ho, rfl⟩ := Role.does_peer does
      · exact .of_sameFiles (.refl _)
      · have disturbs := Peer.move_disturbs wf ho
        exact .of_subset disturbs.onward (disturbs.locked ▸ List.Subset.refl _)

theorem Exchange.onward_of_run {rule : Option Nat → Exchange → Exchange → Prop}
    {a b : Nat × Exchange} (wf : a.2.sockets.fs.WellFormed) (run : Exchange.Run rule a b) :
    a.2.sockets.Onward b.2.sockets := by
  induction run with
  | refl => exact .of_sameFiles (.refl _)
  | tail _ h ih =>
    obtain ⟨mover, step, -⟩ := h
    exact ih.trans (step.onward (ih.fs.wellFormed wf))

end EvidenceExchange
