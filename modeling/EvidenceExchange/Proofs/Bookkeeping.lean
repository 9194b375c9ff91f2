import EvidenceExchange.Proofs.FileSystem.Growth
import EvidenceExchange.Proofs.Upkeep

namespace EvidenceExchange

open FileSystem (Spot)
open Transport (lockPath)

/-- The number of the file that is locked. -/
def Hold.entry (h : Hold) : Nat := h.socketLock.entry

/-- What is held is worth what it says: the file beside its path is locked, and of a listener the socket
stands alone at its path. Only at the empty path there is no socket. -/
inductive Hold.Sound (s : Sockets) : Hold → Prop
  | lock {l : SocketLock} {path : String} (file : l.file = lockPath path)
      (locks : s.Locks path l.entry) : Sound s (.lock l)
  | unnamed {li : SocketListener} (empty : li.path = "") (locks : s.Locks li.path li.lock.entry) :
      Sound s (.listener li)
  | bound {li : SocketListener} {p : Spot}
      (kept : s.Kept li.path p li.lock.entry (some (.listener li))) : Sound s (.listener li)

namespace Hold.Sound

variable {s s' : Sockets} {h : Hold} {li : SocketListener}

theorem exists_locks (sound : h.Sound s) : ∃ path, s.Locks path h.entry := by
  cases sound with
  | lock _ locks | unnamed _ locks => exact ⟨_, locks⟩
  | bound kept => exact ⟨_, kept.locks⟩

theorem listener_locks (sound : (Hold.listener li).Sound s) : s.Locks li.path li.lock.entry := by
  cases sound with
  | unnamed _ locks => exact locks
  | bound kept => exact kept.locks

/-- What is held is worth as much where its lock is still held, all that it takes to find its files is
kept, and its socket still stands alone. -/
theorem carried {kept : Entry → Prop} (sound : h.Sound s) (wf : s.fs.WellFormed)
    (wf' : s'.fs.WellFormed) (keeps : s.fs.Keeps s'.fs kept)
    (files : ∀ e : Entry, e.node = .file → kept e)
    (alone : ∀ {li p}, h = .listener li → s.Kept li.path p li.lock.entry (some (.listener li)) →
      s'.fs.standing p = s.fs.standing p)
    (once : s'.locked.count h.entry = 1) : h.Sound s' := by
  have held : h.entry ∈ s'.locked := List.count_pos_iff.mp (once ▸ Nat.one_pos)
  cases sound with
  | lock file locks => exact .lock file ⟨held, keeps.openFile wf files locks.file⟩
  | unnamed empty locks => exact .unnamed empty ⟨held, keeps.openFile wf files locks.file⟩
  | bound listens =>
    have same := alone rfl listens
    cases listens with
    | bound site locks stands here own =>
      exact .bound (.bound (site.keeps wf' keeps) (keeps.openFile wf files locks)
        (same.trans stands) here own once)

theorem grows (sound : h.Sound s) (wf : s.fs.WellFormed) (grows : s.fs.Grows s'.fs)
    (once : s'.locked.count h.entry = 1) : h.Sound s' := by
  refine sound.carried wf grows.wellFormed (grows.keeps wf) (fun _ _ => trivial) (fun _ listens => ?_) once
  cases listens with
  | bound _ _ stands => exact grows.standing (by simp [stands])

/-- Nobody's socket goes but that of the path whose lock is shown. -/
theorem erased (sound : h.Sound s) (wf : s.fs.WellFormed) {path : String} {entry : Nat} {e : Entry}
    (locks : s.Locks path entry) (stands : s.fs.entryAt? path = some e) (socket : e.node = .socket)
    (other : ∀ {li}, h = .listener li → h.entry ≠ entry) (left : s'.fs = s.fs.erase e.id)
    (once : s'.locked.count h.entry = 1) : h.Sound s' := by
  obtain ⟨keeps, files⟩ := FileSystem.keeps_erase_socket wf stands socket
  rw [← left] at keeps
  refine sound.carried wf (left ▸ wf.erase e.id) keeps files (fun {li p} is listens => ?_) once
  have ne : (⟨li.entry, p.directory, p.name, .socket⟩ : Entry) ≠ e := by
    rintro rfl
    refine other is ?_
    rw [is]
    exact FileSystem.lock_file_unique listens.stands stands listens.lockFile locks.file
  cases listens with
  | bound site _ alone =>
    have rooted := FileSystem.rooted_of_spot? wf site.spot
    rw [left, alone, FileSystem.standing_erase_other wf alone rooted (FileSystem.mem_of_entryAt? stands)
      (by simp [socket]) ne]

end Hold.Sound

/-- The locked files are those of what is held, each once. This is so whatever path a lock is shown for. -/
structure Sockets.Tally (s : Sockets) (live : List Hold) : Prop where
  wellFormed : s.fs.WellFormed
  once : s.locked.Nodup
  booked : s.locked.Perm (live.map Hold.entry)

namespace Sockets.Tally

variable {s s' : Sockets} {live live' : List Hold} {h : Hold} {l : SocketLock} {li : SocketListener}
  {path : String}

theorem perm (t : s.Tally live) (same : live.Perm live') : s.Tally live' :=
  ⟨t.wellFormed, t.once, t.booked.trans (same.map _)⟩

/-- Nobody else has the lock that somebody has. -/
theorem apart (t : s.Tally (h :: live)) {other : Hold} (mem : other ∈ live) : other.entry ≠ h.entry := by
  have once := t.booked.nodup_iff.mp t.once
  rw [List.map_cons, List.nodup_cons] at once
  exact fun same => once.1 (same ▸ List.mem_map_of_mem mem)

theorem onward (t : s.Tally live) (onward : s.fs.Onward s'.fs) (locked : s'.locked = s.locked) :
    s'.Tally live :=
  ⟨onward.wellFormed t.wellFormed, locked ▸ t.once, locked ▸ t.booked⟩

theorem sameFiles (t : s.Tally live) (same : s.SameFiles s') : s'.Tally live :=
  t.onward (same.fs ▸ .refl s.fs) same.locked

theorem lock (t : s.Tally live) (locked : (Transport.lock path s).value = .ok l) :
    (Transport.lock path s).sockets.Tally (.lock l :: live) := by
  obtain ⟨fs, -, free, same⟩ := Transport.lock_eq_ok locked
  have held : (Transport.lock path s).sockets.locked = l.entry :: s.locked := by rw [same]
  refine ⟨(Transport.onward_lock path s).fs.wellFormed t.wellFormed, ?_, ?_⟩
  · rw [held]
    exact List.nodup_cons.mpr ⟨free, t.once⟩
  · rw [held]
    exact t.booked.cons l.entry

theorem lock_refused (t : s.Tally live) {e : IoError}
    (refused : (Transport.lock path s).value = .error e) :
    (Transport.lock path s).sockets.Tally live :=
  t.onward (Transport.onward_lock path s).fs (Transport.lock_refused_locked refused)

theorem give_back (t : s.Tally (h :: live)) (onward : s.fs.Onward s'.fs)
    (locked : s'.locked = s.locked.erase h.entry) : s'.Tally live where
  wellFormed := onward.wellFormed t.wellFormed
  once := locked ▸ t.once.erase _
  booked := by
    have rest := t.booked.erase h.entry
    rwa [List.map_cons, List.erase_cons_head, ← locked] at rest

theorem unlock (t : s.Tally (.lock l :: live)) : (Transport.unlock l s).Tally live :=
  t.give_back (Transport.onward_unlock l s).fs rfl

theorem close (t : s.Tally (.listener li :: live)) :
    (Transport.closeListener li s).sockets.Tally live :=
  t.give_back (Transport.onward_closeListener li s).fs (Transport.closeListener_locked li s)

/-- A listener has the lock that it was bound under. -/
theorem listen (t : s.Tally (.lock l :: live)) (bound : (Transport.listen path l s).value = .ok li) :
    (Transport.listen path l s).sockets.Tally (.listener li :: live) := by
  obtain ⟨_, -, -, rfl, -, locked⟩ := Transport.listen_eq_ok bound
  have rest := t.onward (Transport.onward_listen path li.lock s).fs locked
  exact ⟨rest.wellFormed, rest.once, rest.booked⟩

theorem reclaim (t : s.Tally live) (path : String) (l : SocketLock) :
    (Transport.reclaim path l s).sockets.Tally live :=
  t.onward (Transport.onward_reclaim path l s).fs (Transport.reclaim_locked path l s)

end Sockets.Tally

/-- The locked files are those of what is held, each once, and all that is held is sound. -/
structure Sockets.Books (s : Sockets) (live : List Hold) : Prop where
  wellFormed : s.fs.WellFormed
  once : s.locked.Nodup
  booked : s.locked.Perm (live.map Hold.entry)
  sound : ∀ h ∈ live, h.Sound s

theorem Sockets.Tally.books {s : Sockets} {live : List Hold} (t : s.Tally live)
    (sound : ∀ h ∈ live, h.Sound s) : s.Books live := ⟨t.wellFormed, t.once, t.booked, sound⟩

namespace Sockets.Books

variable {s s' : Sockets} {live live' : List Hold} {h : Hold} {l : SocketLock} {li : SocketListener}
  {path : String} {entry : Nat}

theorem tally (b : s.Books live) : s.Tally live := ⟨b.wellFormed, b.once, b.booked⟩

theorem perm (b : s.Books live) (same : live.Perm live') : s.Books live' :=
  (b.tally.perm same).books fun h mem => b.sound h (same.mem_iff.mpr mem)

theorem count (b : s.Books live) (mem : h ∈ live) : s.locked.count h.entry = 1 :=
  List.count_eq_one_of_mem b.once (b.booked.mem_iff.mpr (List.mem_map_of_mem mem))

theorem exists_holder (b : s.Books live) (held : entry ∈ s.locked) : ∃ h ∈ live, h.entry = entry :=
  List.mem_map.mp (b.booked.mem_iff.mp held)

theorem grows (b : s.Books live) (grows : s.fs.Grows s'.fs) (locked : s'.locked = s.locked) :
    s'.Books live where
  wellFormed := grows.wellFormed
  once := locked ▸ b.once
  booked := locked ▸ b.booked
  sound h mem := (b.sound h mem).grows b.wellFormed grows (locked ▸ b.count mem)

theorem sameFiles (b : s.Books live) (same : s.SameFiles s') : s'.Books live :=
  b.grows (.of_eq b.wellFormed same.fs) same.locked

/-- A lock file that is locked is there already. -/
theorem fs_eq_of_held (b : s.Books live) {fs : FileSystem}
    (opened : s.fs.openFile (lockPath path) = .ok (entry, fs)) (held : entry ∈ s.locked) : fs = s.fs := by
  obtain ⟨_, _, _, new, -⟩ | same := FileSystem.openFile_cases opened
  · obtain ⟨h, mem, rfl⟩ := b.exists_holder held
    obtain ⟨_, locks⟩ := (b.sound h mem).exists_locks
    exact absurd (b.wellFormed.openFile_lt locks.file) (new ▸ lt_irrefl _)
  · exact same

theorem lock_of_held (b : s.Books live) {fs : FileSystem}
    (opened : s.fs.openFile (lockPath path) = .ok (entry, fs)) (held : entry ∈ s.locked) :
    Transport.lock path s = ⟨.error (Transport.heldElsewhere path), s, []⟩ :=
  Transport.lock_of_locks ⟨held, b.fs_eq_of_held opened held ▸ opened⟩

theorem lock (b : s.Books live) (locked : (Transport.lock path s).value = .ok l) :
    (Transport.lock path s).sockets.Books (.lock l :: live) := by
  obtain ⟨fs, opened, free, same⟩ := Transport.lock_eq_ok locked
  have grows := FileSystem.Grows.openFile b.wellFormed opened
  obtain ⟨-, -, again⟩ := FileSystem.openFile_eq_ok b.wellFormed opened
  refine (b.tally.lock locked).books fun h mem => ?_
  rw [Transport.lock_of_free opened free] at locked
  have file : l.file = lockPath path := (congrArg SocketLock.file (Except.ok.inj locked)).symm
  rw [same]
  obtain rfl | mem := List.mem_cons.mp mem
  · exact .lock file ⟨List.mem_cons_self, again⟩
  · have other : l.entry ≠ h.entry := fun same =>
      free (same ▸ b.booked.mem_iff.mpr (List.mem_map_of_mem mem))
    refine (b.sound h mem).grows b.wellFormed grows ?_
    rw [List.count_cons_of_ne other, b.count mem]

theorem lock_refused (b : s.Books live) {e : IoError} (refused : (Transport.lock path s).value = .error e) :
    (Transport.lock path s).sockets = s := by
  cases opened : s.fs.openFile (lockPath path) with
  | error _ => simp only [Transport.lock, opened]
  | ok made =>
    by_cases held : made.1 ∈ s.locked
    · rw [b.lock_of_held opened held]
    · rw [Transport.lock_of_free opened held] at refused
      cases refused

/-- What gives its lock back takes nothing from the others. -/
theorem sound_of_give_back (b : s.Books (h :: live)) (locked : s'.locked = s.locked.erase h.entry)
    (sound : ∀ other ∈ live, s'.locked.count other.entry = 1 → other.Sound s') :
    ∀ other ∈ live, other.Sound s' := by
  intro other mem
  apply sound other mem
  rw [locked, List.count_erase_of_ne (b.tally.apart mem), b.count (List.mem_cons_of_mem _ mem)]

theorem unlock (b : s.Books (.lock l :: live)) : (Transport.unlock l s).Books live :=
  b.tally.unlock.books <| b.sound_of_give_back rfl fun other mem once =>
    (b.sound other (List.mem_cons_of_mem _ mem)).grows b.wellFormed (.refl b.wellFormed) once

theorem reclaim (b : s.Books (.lock l :: live)) (locks : s.Locks path l.entry) :
    (Transport.reclaim path l s).sockets.Books (.lock l :: live) := by
  refine (b.tally.reclaim path l).books fun h mem => ?_
  obtain ⟨e, stands, socket, removed⟩ | kept := Transport.reclaim_cases path l s
  · rw [removed]
    refine (b.sound h mem).erased b.wellFormed locks stands socket (fun is => ?_) rfl (b.count mem)
    obtain rfl | mem := List.mem_cons.mp mem
    · cases is
    · exact b.tally.apart mem
  · rw [kept]
    exact b.sound h mem

theorem listen (b : s.Books (.lock l :: live)) (locks : s.Locks path l.entry)
    (bound : (Transport.listen path l s).value = .ok li) :
    (Transport.listen path l s).sockets.Books (.listener li :: live) := by
  obtain ⟨fs, made, rfl, rfl, after, locked⟩ := Transport.listen_eq_ok bound
  have grows := FileSystem.Grows.bindEntry b.wellFormed made
  rw [← after] at grows
  have rest := b.grows grows locked
  have once : s.locked.count li.lock.entry = 1 := b.count (h := .lock li.lock) List.mem_cons_self
  refine (b.tally.listen bound).books fun h mem => ?_
  obtain rfl | mem := List.mem_cons.mp mem
  · by_cases named : li.path = ""
    · exact .unnamed named
        ⟨locked ▸ locks.held, (grows.keeps b.wellFormed).openFile b.wellFormed (fun _ _ => trivial) locks.file⟩
    · obtain ⟨p, -, kept⟩ := Kept.of_listen b.wellFormed named locks once bound
      exact .bound kept
  · exact rest.sound h (List.mem_cons_of_mem _ mem)

theorem closeListener_unnamed (empty : li.path = "") :
    (Transport.closeListener li s).sockets = Transport.unlock li.lock (s.unlisten li.entry) := by
  have nothing : s.fs.unlink li.path = .error .noEntry := by
    rw [empty]
    rfl
  simp only [Transport.closeListener, nothing]

theorem close (b : s.Books (.listener li :: live)) : (Transport.closeListener li s).sockets.Books live := by
  have locked := Transport.closeListener_locked li s
  have others := fun other mem => b.sound other (List.mem_cons_of_mem _ mem)
  refine b.tally.close.books (b.sound_of_give_back locked fun other mem once => ?_)
  cases b.sound _ List.mem_cons_self with
  | unnamed empty _ =>
    have fs : (Transport.closeListener li s).sockets.fs = s.fs := by
      rw [closeListener_unnamed empty]
      exact unlisten_fs s li.entry
    exact (others other mem).grows b.wellFormed (.of_eq b.wellFormed fs) once
  | bound kept =>
    have left := kept.closeListener_fs
    have other_lock : other.entry ≠ li.lock.entry := b.tally.apart mem
    exact (others other mem).erased b.wellFormed kept.locks kept.stands rfl (fun _ => other_lock) left once

/-- When a listener has gone, nothing is at its path, and the lock file is there for the next one, who
can lock it and listen. -/
theorem vacated (b : s.Books (.listener li :: live)) :
    (Transport.closeListener li s).sockets.fs.entryAt? li.path = none ∧
      (Transport.closeListener li s).sockets.fs.openFile (lockPath li.path) =
        .ok (li.lock.entry, (Transport.closeListener li s).sockets.fs) ∧
      li.lock.entry ∉ (Transport.closeListener li s).sockets.locked ∧
      ∃ l li', (Transport.lock li.path (Transport.closeListener li s).sockets).value = .ok l ∧
        (Transport.listen li.path l
          (Transport.lock li.path (Transport.closeListener li s).sockets).sockets).value = .ok li' := by
  have free : li.lock.entry ∉ (Transport.closeListener li s).sockets.locked := by
    rw [Transport.closeListener_locked]
    exact b.once.not_mem_erase
  cases b.sound _ List.mem_cons_self with
  | unnamed empty locks =>
    have file : (Transport.closeListener li s).sockets.fs.openFile (lockPath li.path) =
        .ok (li.lock.entry, (Transport.closeListener li s).sockets.fs) := by
      have fs : (Transport.closeListener li s).sockets.fs = s.fs := by
        rw [closeListener_unnamed empty]
        exact unlisten_fs s li.entry
      rw [fs]
      exact locks.file
    refine ⟨by rw [empty]; rfl, file, free, ?_⟩
    rw [Transport.lock_of_free file free, empty]
    exact ⟨_, _, rfl, rfl⟩
  | bound kept =>
    obtain ⟨after, -⟩ := kept.closeListener
    obtain ⟨l, locked, kept'⟩ := after.lock
    obtain ⟨li', bound⟩ := kept'.exists_listener
    refine ⟨?_, after.lockFile, free, l, li', locked, bound⟩
    cases after with
    | free site _ vacant =>
      rw [site.entryAt?_eq_head?, vacant]
      rfl

end Sockets.Books

end EvidenceExchange
