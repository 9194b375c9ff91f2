import EvidenceExchange.Proofs.FileSystem.Steps
import EvidenceExchange.Proofs.Moves.Sender
import EvidenceExchange.Proofs.Sockets

namespace EvidenceExchange

theorem Sender.Turn.sameFiles {d : Sender} {s : Sockets} {o : Outcome Sender} (h : d.Turn s o) :
    s.SameFiles o.sockets := by
  cases h with
  | quit | start | retry => exact .refl s
  | connect _ connected =>
    have same := s.sameFiles_connect d.path
    rwa [connected] at same
  | @connectFails _ _ stream _ _ _ _ _ connected =>
    have same := s.sameFiles_connect d.path
    rw [connected] at same
    exact same.close stream
  | @write _ stream rest grain _ _ _ wrote =>
    have same := s.sameFiles_write stream rest grain
    rwa [wrote] at same
  | @deliver _ stream rest grain _ _ _ _ wrote =>
    have same := s.sameFiles_write stream rest grain
    rw [wrote] at same
    exact ⟨same.fs, same.locked, same.detached⟩
  | hangUp => exact ⟨rfl, rfl, rfl⟩

namespace Peer

/-- A peer that leaves all files alone but those that it listens at. -/
def Quiet (p : Peer) : Prop := ∀ step ∈ p.steps, ∀ f, step.action ≠ .file f

/-- What a peer does to the files. -/
structure Disturbs (p : Peer) (s : Sockets) (m : PeerMove) : Prop where
  locked : m.sockets.locked = s.locked
  onward : s.fs.Onward m.sockets.fs
  quiet : p.Quiet → m.peer.Quiet ∧ s.fs.Keeps m.sockets.fs fun _ => True

theorem Quiet.answer {p : Peer} (h : p.Quiet) (now : Nat) (a : PeerAnswer) :
    (p.answer now a).Quiet :=
  fun step hstep => h step (List.mem_of_mem_tail hstep)

theorem Disturbs.of_sameFiles {p : Peer} {s : Sockets} {m : PeerMove}
    (same : s.SameFiles m.sockets) (quiet : p.Quiet → m.peer.Quiet) : p.Disturbs s m where
  locked := same.locked
  onward := same.fs ▸ .refl s.fs
  quiet h := ⟨quiet h, same.fs ▸ .refl s.fs⟩

theorem sameFiles_dropStream (p : Peer) (s : Sockets) : s.SameFiles (p.dropStream s) := by
  unfold dropStream
  split <;> exact ⟨rfl, rfl, rfl⟩

theorem sameFiles_breakStream (p : Peer) (s : Sockets) : s.SameFiles (p.breakStream s) := by
  unfold breakStream
  split <;> exact ⟨rfl, rfl, rfl⟩

theorem sameFiles_dropListener (p : Peer) (s : Sockets) : s.SameFiles (p.dropListener s) := by
  unfold dropListener
  split
  next entry _ => exact ⟨s.unlisten_fs entry, s.unlisten_locked entry, s.unlisten_detached entry⟩
  next => exact .refl s

theorem begin_disturbs {s : Sockets} (wf : s.fs.WellFormed) (p : Peer) {step : PeerStep}
    {further : List PeerStep} (hsteps : p.steps = step :: further) (now : Nat) :
    p.Disturbs s (p.begin now s step.action) := by
  have quiet := fun a (h : p.Quiet) => h.answer now a
  cases haction : step.action with
  | file f =>
    refine ⟨rfl, .apply s.fs f, fun h => ?_⟩
    exact absurd haction (h step (by simp [hsteps]) f)
  | probe => exact .of_sameFiles (.refl s) (quiet _)
  | connect path =>
    have same := s.sameFiles_connect path
    simp only [begin]
    split
    next e s' hconnect =>
      rw [hconnect] at same
      exact .of_sameFiles (same.trans (p.sameFiles_dropStream s')) (quiet .done)
    next e s' hconnect =>
      rw [hconnect] at same
      exact .of_sameFiles same (quiet _)
  | listen path =>
    simp only [begin]
    split
    next entry s' hbind =>
      cases hentry : Sockets.bindEntry s.fs path with
      | error _ => simp [Sockets.bind, hentry] at hbind
      | ok bound =>
        simp only [Sockets.bind, hentry] at hbind
        obtain ⟨-, rfl⟩ := Prod.mk.inj hbind
        have same := p.sameFiles_dropListener
          { s with fs := bound.2, listening := s.listening ++ [⟨bound.1, []⟩] }
        have hfs : (p.dropListener _).fs = bound.2 := same.fs
        refine ⟨same.locked, ?_, fun h => ⟨quiet .done h, ?_⟩⟩
        · simp only [moved, hfs]
          exact (FileSystem.Onward.bindEntry hentry).1
        · simp only [moved, hfs]
          exact FileSystem.keeps_bindEntry wf hentry
    next entry s' hbind =>
      cases hentry : Sockets.bindEntry s.fs path with
      | ok _ => simp [Sockets.bind, hentry] at hbind
      | error _ =>
        simp only [Sockets.bind, hentry] at hbind
        obtain ⟨-, rfl⟩ := Prod.mk.inj hbind
        exact .of_sameFiles (.refl s) (quiet _)
  | accept limit | write data | readToEnd limit =>
    simp only [begin]
    split
    next => exact .of_sameFiles (.refl s) id
    next => exact .of_sameFiles (.refl s) (quiet _)
  | shutdown =>
    simp only [begin]
    split
    next => exact .of_sameFiles ⟨rfl, rfl, rfl⟩ (quiet _)
    next => exact .of_sameFiles (.refl s) (quiet _)
  | close => exact .of_sameFiles (p.sameFiles_dropStream s) (quiet .done)
  | unlisten => exact .of_sameFiles (p.sameFiles_dropListener s) (quiet .done)
  | cancelAll => exact .of_sameFiles (.refl s) (quiet _)
  | breakDown => exact .of_sameFiles (p.sameFiles_breakStream s) (quiet .done)
  | failAccepts cause => exact .of_sameFiles ⟨rfl, rfl, rfl⟩ (quiet .done)

theorem move_disturbs {s : Sockets} (wf : s.fs.WellFormed) {p : Peer} {grain now : Nat}
    {m : PeerMove} (h : p.move grain now s = some m) : p.Disturbs s m := by
  have quiet := fun a (h : p.Quiet) => h.answer now a
  unfold move at h
  split at h
  next =>
    split at h
    next hsteps =>
      split at h
      next => cases h
      next =>
        cases h
        refine .of_sameFiles ?_ id
        exact (p.sameFiles_dropStream s).trans (p.sameFiles_dropListener _)
    next step further hsteps =>
      split at h
      next =>
        cases h
        exact begin_disturbs wf p hsteps now
      next => cases h
  next entry giveUpAt _ =>
    split at h
    next e s' haccept =>
      cases h
      have same := Sockets.sameFiles_accept haccept
      exact .of_sameFiles (same.trans (p.sameFiles_dropStream s')) (quiet .done)
    next =>
      split at h
      next =>
        cases h
        exact .of_sameFiles (.refl s) (quiet _)
      next => cases h
  next e rest _ =>
    have same := s.sameFiles_write e rest grain
    split at h
    next count s' hwrite =>
      rw [hwrite] at same
      split at h <;> cases h
      · exact .of_sameFiles same (quiet _)
      · exact .of_sameFiles same id
    next s' hwrite =>
      rw [hwrite] at same
      cases h
      exact .of_sameFiles same (quiet _)
    next => cases h
  next e earlier giveUpAt _ =>
    have same := s.sameFiles_read e grain
    split at h
    next bytes s' hread =>
      rw [hread] at same
      cases h
      exact .of_sameFiles same id
    next s' hread =>
      rw [hread] at same
      cases h
      exact .of_sameFiles same (quiet _)
    next cause s' hread =>
      rw [hread] at same
      cases h
      exact .of_sameFiles same (quiet _)
    next s' hread =>
      rw [hread] at same
      split at h
      next =>
        cases h
        exact .of_sameFiles same (quiet _)
      next => cases h

end Peer

end EvidenceExchange
