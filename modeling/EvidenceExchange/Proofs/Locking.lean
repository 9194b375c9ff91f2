import EvidenceExchange.Proofs.FileSystem.Steps
import EvidenceExchange.Proofs.Sockets

namespace EvidenceExchange

open Transport (lockPath)

/-- The file beside a path is locked, and has the given number. -/
structure Sockets.Locks (s : Sockets) (path : String) (entry : Nat) : Prop where
  held : entry ∈ s.locked
  file : s.fs.openFile (lockPath path) = .ok (entry, s.fs)

/-- The socket that a listener was bound to is what stands at its path. -/
def SocketListener.Stands (l : SocketListener) (s : Sockets) : Prop :=
  ∃ e, s.fs.entryAt? l.path = some e ∧ e.id = l.entry ∧ e.node = .socket

/-- All locks but one's own are still held, and what stood under them still stands. -/
structure Sockets.Spares (mine : Option Nat) (s s' : Sockets) : Prop where
  wellFormed : s'.fs.WellFormed
  lock : ∀ {path entry}, some entry ≠ mine → s.Locks path entry → s'.Locks path entry
  socket : ∀ {path entry e}, some entry ≠ mine → s.Locks path entry →
    s.fs.entryAt? path = some e → s'.fs.entryAt? path = some e

namespace Sockets.Spares

variable {mine : Option Nat} {s s' s'' : Sockets}

theorem refl (wf : s.fs.WellFormed) : Spares mine s s := ⟨wf, fun _ h => h, fun _ _ h => h⟩

theorem trans (h : Spares mine s s') (h' : Spares mine s' s'') : Spares mine s s'' where
  wellFormed := h'.wellFormed
  lock other held := h'.lock other (h.lock other held)
  socket other held stands := h'.socket other (h.lock other held) (h.socket other held stands)

theorem of_none (h : Spares none s s') (mine : Option Nat) : Spares mine s s' where
  wellFormed := h.wellFormed
  lock _ := h.lock (by simp)
  socket _ := h.socket (by simp)

theorem of_sameFiles (wf : s.fs.WellFormed) (h : SameFiles s s') : Spares mine s s' where
  wellFormed := h.fs ▸ wf
  lock _ held := ⟨h.locked ▸ held.held, h.fs ▸ held.file⟩
  socket _ _ stands := h.fs ▸ stands

theorem detach (h : Spares mine s s') (call : FileCall) : Spares mine s (s'.detach call) :=
  ⟨h.wellFormed, fun other held => ⟨(h.lock other held).held, (h.lock other held).file⟩, h.socket⟩

theorem stands (h : Spares mine s s') {l : SocketListener} {entry : Nat}
    (other : some entry ≠ mine) (held : s.Locks l.path entry) (stands : l.Stands s) :
    l.Stands s' := by
  obtain ⟨e, he, hid⟩ := stands
  exact ⟨e, h.socket other held he, hid⟩

/-- Where all that stood still stands, no lock is lost. -/
theorem of_keeps (wf : s.fs.WellFormed) (wf' : s'.fs.WellFormed)
    (keeps : s.fs.Keeps s'.fs fun _ => True) (locked : ∀ entry ∈ s.locked, entry ∈ s'.locked) :
    Spares mine s s' where
  wellFormed := wf'
  lock _ held := ⟨locked _ held.held, keeps.openFile wf (fun _ _ => trivial) held.file⟩
  socket _ _ stands := keeps.entryAt? wf stands trivial

end Sockets.Spares

namespace Transport

variable {s : Sockets} {path : String}

theorem lock_of_free {entry : Nat} {fs : FileSystem}
    (opened : s.fs.openFile (lockPath path) = .ok (entry, fs)) (free : entry ∉ s.locked) :
    lock path s = ⟨.ok ⟨lockPath path, entry⟩, { s with fs := fs, locked := entry :: s.locked },
      [.lockAcquired (lockPath path)]⟩ := by
  simp [lock, opened, free]

theorem lock_eq_ok {l : SocketLock} (h : (lock path s).value = .ok l) :
    ∃ fs, s.fs.openFile (lockPath path) = .ok (l.entry, fs) ∧ l.entry ∉ s.locked ∧
      (lock path s).sockets = { s with fs := fs, locked := l.entry :: s.locked } := by
  cases opened : s.fs.openFile (lockPath path) with
  | error e => simp [lock, opened] at h
  | ok made =>
    obtain ⟨entry, fs⟩ := made
    by_cases held : entry ∈ s.locked
    · simp [lock, opened, held] at h
    · rw [lock_of_free opened held] at h ⊢
      cases h
      exact ⟨fs, rfl, held, rfl⟩

theorem hasSocket_iff : hasSocket path s = true ↔ ∃ e, s.fs.entryAt? path = some e ∧ e.node = .socket := by
  unfold hasSocket
  split
  next stood => exact iff_of_true rfl ⟨_, stood, rfl⟩
  next other =>
    refine iff_of_false Bool.false_ne_true ?_
    rintro ⟨⟨id, parent, name, _⟩, stood, rfl⟩
    exact other id parent name stood

theorem remove_cases (path : String) (s : Sockets) :
    (∃ fs, s.fs.unlink path = .ok fs ∧ remove path s = (.ok (), { s with fs := fs })) ∨
      ∃ e, remove path s = (.error e, s) := by
  unfold remove
  split
  next fs removed => exact .inl ⟨fs, removed, rfl⟩
  next e _ => exact .inr ⟨e, rfl⟩

theorem remove_locked (path : String) (s : Sockets) : (remove path s).2.locked = s.locked := by
  obtain ⟨_, -, removed⟩ | ⟨_, kept⟩ := remove_cases path s
  · rw [removed]
  · rw [kept]

theorem remove_of_socket {e : Entry} (stands : s.fs.entryAt? path = some e) (socket : e.node = .socket) :
    remove path s = (.ok (), { s with fs := s.fs.erase e.id }) := by
  rw [remove, FileSystem.unlink_of_entryAt? stands (by simp [socket])]

theorem reclaim_sockets (path : String) (l : SocketLock) (s : Sockets) :
    (reclaim path l s).sockets = if hasSocket path s then (remove path s).2 else s := by
  unfold reclaim
  split <;> rfl

theorem reclaim_of_socket {e : Entry} (stands : s.fs.entryAt? path = some e) (socket : e.node = .socket)
    (l : SocketLock) :
    reclaim path l s = ⟨.ok true, { s with fs := s.fs.erase e.id }, [.staleSocketRemoved path]⟩ := by
  rw [reclaim, if_pos (hasSocket_iff.mpr ⟨e, stands, socket⟩), remove_of_socket stands socket]
  rfl

/-- A socket is removed, and nothing else is. -/
theorem reclaim_cases (path : String) (l : SocketLock) (s : Sockets) :
    (∃ e, s.fs.entryAt? path = some e ∧ e.node = .socket ∧
      reclaim path l s = ⟨.ok true, { s with fs := s.fs.erase e.id }, [.staleSocketRemoved path]⟩) ∨
      reclaim path l s = ⟨.ok false, s, []⟩ := by
  by_cases seen : hasSocket path s = true
  · obtain ⟨e, stands, socket⟩ := hasSocket_iff.mp seen
    exact .inl ⟨e, stands, socket, reclaim_of_socket stands socket l⟩
  · exact .inr (if_neg seen)

theorem reclaim_locked (path : String) (l : SocketLock) (s : Sockets) :
    (reclaim path l s).sockets.locked = s.locked := by
  rw [reclaim_sockets]
  split
  · exact remove_locked path s
  · rfl

theorem listen_eq_ok {l : SocketLock} {li : SocketListener}
    (h : (listen path l s).value = .ok li) :
    ∃ fs, Sockets.bindEntry s.fs path = .ok (li.entry, fs) ∧ li.path = path ∧ li.lock = l ∧
      (listen path l s).sockets.fs = fs ∧ (listen path l s).sockets.locked = s.locked := by
  cases made : Sockets.bindEntry s.fs path with
  | error e =>
    simp only [listen, Sockets.bind, made] at h
    cases h
  | ok bound =>
    simp only [listen, Sockets.bind, made] at h ⊢
    cases h
    exact ⟨_, rfl, rfl, rfl, rfl, trivial⟩

theorem lock_refused_locked {e : IoError} (h : (lock path s).value = .error e) :
    (lock path s).sockets.locked = s.locked := by
  cases opened : s.fs.openFile (lockPath path) with
  | error _ => simp [lock, opened]
  | ok made =>
    by_cases held : made.1 ∈ s.locked
    · simp [lock, opened, held]
    · rw [lock_of_free opened held] at h
      cases h

theorem listen_eq_error {l : SocketLock} {e : IoError} (h : (listen path l s).value = .error e) :
    (listen path l s).sockets = unlock l s := by
  cases made : Sockets.bindEntry s.fs path with
  | error _ => simp only [listen, Sockets.bind, made]
  | ok bound =>
    simp only [listen, Sockets.bind, made] at h
    cases h

theorem closeListener_locked (li : SocketListener) (s : Sockets) :
    (closeListener li s).sockets.locked = s.locked.erase li.lock.entry := by
  unfold closeListener
  cases s.fs.unlink li.path <;> simp only [unlock, Sockets.unlisten_locked]

@[simp]
theorem lock_detached (path : String) (s : Sockets) : (lock path s).sockets.detached = s.detached := by
  unfold lock
  split
  next => rfl
  next => split <;> rfl

@[simp]
theorem remove_detached (path : String) (s : Sockets) : (remove path s).2.detached = s.detached := by
  unfold remove
  split <;> rfl

@[simp]
theorem listen_detached (path : String) (l : SocketLock) (s : Sockets) :
    (listen path l s).sockets.detached = s.detached := by
  cases made : Sockets.bindEntry s.fs path <;> simp only [listen, Sockets.bind, made, unlock]

@[simp]
theorem closeListener_detached (li : SocketListener) (s : Sockets) :
    (closeListener li s).sockets.detached = s.detached := by
  unfold closeListener
  cases s.fs.unlink li.path <;> simp only [unlock, Sockets.unlisten_detached]

/-- Locking takes a lock that nobody holds, or none. -/
theorem lock_spec (wf : s.fs.WellFormed) (path : String) :
    s.Spares none (lock path s).sockets ∧
      ∀ l, (lock path s).value = .ok l →
        l.entry ∉ s.locked ∧ (lock path s).sockets.Locks path l.entry := by
  cases hopen : s.fs.openFile (lockPath path) with
  | error e =>
    simp only [lock, hopen]
    exact ⟨.refl wf, fun l h => by cases h⟩
  | ok opened =>
    obtain ⟨entry, fs⟩ := opened
    obtain ⟨wf', keeps, hagain⟩ := FileSystem.openFile_eq_ok wf hopen
    by_cases hheld : s.locked.contains entry = true
    · simp only [lock, hopen, if_pos hheld]
      exact ⟨.of_keeps wf wf' keeps fun _ h => h, fun l h => by cases h⟩
    · simp only [lock, hopen, if_neg hheld]
      refine ⟨.of_keeps wf wf' keeps fun _ h => List.mem_cons_of_mem _ h, fun l h => ?_⟩
      cases h
      exact ⟨by simpa using hheld, by simp, hagain⟩

/-- Nobody gets the lock of a path while somebody holds it. -/
theorem lock_of_locks {entry : Nat} (held : s.Locks path entry) :
    lock path s = ⟨.error (heldElsewhere path), s, []⟩ := by
  have hin : s.locked.contains entry = true := by simpa using held.held
  simp only [lock, held.file, if_pos hin]

theorem unlock_spares (wf : s.fs.WellFormed) (l : SocketLock) :
    s.Spares (some l.entry) (unlock l s) where
  wellFormed := wf
  lock other held := ⟨(List.mem_erase_of_ne (by simpa using other)).mpr held.held, held.file⟩
  socket _ _ stands := stands

theorem unlisten_spares (wf : s.fs.WellFormed) (entry : Nat) {mine : Option Nat} :
    s.Spares mine (s.unlisten entry) :=
  .of_sameFiles wf ⟨s.unlisten_fs entry, s.unlisten_locked entry, s.unlisten_detached entry⟩

/-- The socket that stands at a path goes, if it is removed under the lock of the path. -/
theorem erase_spares (wf : s.fs.WellFormed) {entry : Nat} (held : s.Locks path entry) {e : Entry}
    (stands : s.fs.entryAt? path = some e) (socket : e.node = .socket) :
    s.Spares (some entry) { s with fs := s.fs.erase e.id } ∧
      ({ s with fs := s.fs.erase e.id } : Sockets).Locks path entry := by
  obtain ⟨keeps, hfiles⟩ := FileSystem.keeps_erase_socket wf stands socket
  refine ⟨⟨wf.erase e.id, fun _ other => ?_, fun other held' stands' => ?_⟩, held.held, ?_⟩
  · exact ⟨other.held, keeps.openFile wf hfiles other.file⟩
  · refine keeps.entryAt? wf stands' ?_
    rintro rfl
    exact other (congrArg some (FileSystem.lock_file_unique stands' stands held'.file held.file))
  · exact keeps.openFile wf hfiles held.file

theorem remove_spec (wf : s.fs.WellFormed) {entry : Nat} (held : s.Locks path entry) {e : Entry}
    (stands : s.fs.entryAt? path = some e) (socket : e.node = .socket) :
    s.Spares (some entry) (remove path s).2 ∧ (remove path s).2.Locks path entry := by
  rw [remove_of_socket stands socket]
  exact erase_spares wf held stands socket

theorem listen_spec (wf : s.fs.WellFormed) (l : SocketLock) (named : path ≠ "") :
    s.Spares (some l.entry) (listen path l s).sockets ∧
      ∀ li, (listen path l s).value = .ok li →
        li.path = path ∧ li.lock = l ∧ li.Stands (listen path l s).sockets ∧
          (s.Locks path l.entry → (listen path l s).sockets.Locks path l.entry) := by
  cases hbind : Sockets.bindEntry s.fs path with
  | error e =>
    simp only [listen, Sockets.bind, hbind]
    exact ⟨unlock_spares wf l, fun li h => by cases h⟩
  | ok bound =>
    obtain ⟨entry, fs⟩ := bound
    simp only [listen, Sockets.bind, hbind]
    obtain ⟨-, -, hempty⟩ | hplace := FileSystem.bindEntry_eq_ok hbind
    · exact absurd hempty named
    · obtain ⟨wf', keeps, e, stands, hid, hnode⟩ := FileSystem.place_eq_ok wf hplace
      refine ⟨.of_keeps wf wf' keeps fun _ h => h, fun li h => ?_⟩
      cases h
      refine ⟨rfl, rfl, ⟨e, stands, hid, hnode⟩, fun held => ⟨held.held, ?_⟩⟩
      exact keeps.openFile wf (fun _ _ => trivial) held.file

/-- A listener that goes takes its own socket and its own lock with it. -/
theorem closeListener_spares (wf : s.fs.WellFormed) (l : SocketListener)
    (held : s.Locks l.path l.lock.entry) (stands : l.Stands s) :
    s.Spares (some l.lock.entry) (closeListener l s).sockets := by
  obtain ⟨e, he, hid, hnode⟩ := stands
  have hunlink := FileSystem.unlink_of_entryAt? he (by simp [hnode])
  obtain ⟨spares, -⟩ := erase_spares wf held he hnode
  simp only [closeListener, hunlink]
  exact (spares.trans (unlisten_spares spares.wellFormed l.entry)).trans
    (unlock_spares (by simpa using spares.wellFormed) l.lock)

end Transport

end EvidenceExchange
