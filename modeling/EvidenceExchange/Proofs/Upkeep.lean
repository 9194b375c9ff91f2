import EvidenceExchange.Proofs.FileSystem.Standing
import EvidenceExchange.Proofs.Holding

namespace EvidenceExchange

open FileSystem (Spot)
open Transport (lockPath)

/-- Where the socket of a path has its place. -/
structure FileSystem.Site (fs : FileSystem) (path : String) (p : Spot) : Prop where
  wellFormed : fs.WellFormed
  spot : fs.spot? path = .ok (some p)
  plain : endsInSlash path = false
  address : Sockets.checkAddress path = .ok ()

namespace FileSystem.Site

variable {fs fs' : FileSystem} {path : String} {p : Spot}

theorem path_ne_empty (site : fs.Site path p) : path ≠ "" := by
  rintro rfl
  obtain ⟨_, checked, -⟩ := Except.bind_eq_ok_iff.mp site.spot
  cases checked

theorem keeps (site : fs.Site path p) {kept : Entry → Prop} (wf : fs'.WellFormed)
    (k : fs.Keeps fs' kept) : fs'.Site path p :=
  ⟨wf, k.spot? site.wellFormed site.spot, site.plain, site.address⟩

theorem entryAt?_eq_head? (site : fs.Site path p) : fs.entryAt? path = (fs.standing p).head? := by
  rw [entryAt?_of_spot? site.spot site.plain, head?_standing]

theorem bindEntry (site : fs.Site path p) (vacant : fs.standing p = []) :
    Sockets.bindEntry fs path = .ok (fs.fresh, fs.create p.directory p.name .socket) := by
  have free : fs.occupant? p = none := standing_eq_nil_iff.mp vacant
  have placed : fs.place path .socket = .ok (fs.fresh, fs.create p.directory p.name .socket) :=
    place_eq_ok_iff.mpr ⟨p, site.spot, free, site.plain, rfl, rfl⟩
  have named : path.isEmpty = false := by simpa using site.path_ne_empty
  simp only [Sockets.bindEntry, site.address, named, placed]
  rfl

/-- Where a socket could be bound, it stands alone now. -/
theorem of_bindEntry (wf : fs.WellFormed) (named : path ≠ "") {entry : Nat}
    (h : Sockets.bindEntry fs path = .ok (entry, fs')) :
    ∃ p, fs.Site path p ∧ fs.standing p = [] ∧ entry = fs.fresh ∧
      fs' = fs.create p.directory p.name .socket := by
  obtain ⟨_, address, -⟩ := Except.bind_eq_ok_iff.mp h
  obtain ⟨-, -, hempty⟩ | hplace := bindEntry_eq_ok h
  · exact absurd hempty named
  · obtain ⟨p, spot, free, plain, rfl, rfl⟩ := place_eq_ok_iff.mp hplace
    exact ⟨p, ⟨wf, spot, plain, address⟩, standing_eq_nil_iff.mpr free, rfl, rfl⟩

end FileSystem.Site

/-- A path leads where it led, and neither what stands there nor the lock file beside it is made,
removed, replaced, locked or released. -/
structure Sockets.Untouched (path : String) (s s' : Sockets) : Prop where
  spot : s'.fs.spot? path = s.fs.spot? path
  standing : ∀ p, s.fs.spot? path = .ok (some p) → s'.fs.standing p = s.fs.standing p
  lockFile : s'.fs.resolve .newFile (lockPath path) = s.fs.resolve .newFile (lockPath path)
  locked : ∀ entry, s.fs.openFile (lockPath path) = .ok (entry, s.fs) →
    s'.locked.count entry = s.locked.count entry

namespace Sockets.Untouched

variable {path : String} {s s' : Sockets}

theorem of_eq (fs : s'.fs = s.fs) (locked : s'.locked = s.locked) : s.Untouched path s' where
  spot := fs ▸ rfl
  standing _ _ := fs ▸ rfl
  lockFile := fs ▸ rfl
  locked _ _ := locked ▸ rfl

theorem openFile (h : s.Untouched path s') {entry : Nat}
    (file : s.fs.openFile (lockPath path) = .ok (entry, s.fs)) :
    s'.fs.openFile (lockPath path) = .ok (entry, s'.fs) := by
  obtain ⟨e, he, node, id⟩ := FileSystem.openFile_eq_ok_self_iff.mp file
  exact FileSystem.openFile_eq_ok_self_iff.mpr ⟨e, h.lockFile.trans he, node, id⟩

end Sockets.Untouched

namespace Sockets

variable {path : String} {p : Spot} {file : Nat} {s s' : Sockets}

theorem Untouched.site (h : s.Untouched path s') (onward : s.Onward s') (site : s.fs.Site path p) :
    s'.fs.Site path p :=
  ⟨onward.fs.wellFormed site.wellFormed, h.spot.trans site.spot, site.plain, site.address⟩

/-- What is held at a path is all that stands there, beside the lock file of the given number. -/
inductive Kept (path : String) (p : Spot) (file : Nat) (s : Sockets) : Option Hold → Prop
  | free (site : s.fs.Site path p) (locks : s.fs.openFile (lockPath path) = .ok (file, s.fs))
      (vacant : s.fs.standing p = []) (unlocked : s.locked.count file = 0) : Kept path p file s none
  | locked {l} (site : s.fs.Site path p) (locks : s.fs.openFile (lockPath path) = .ok (file, s.fs))
      (vacant : s.fs.standing p = []) (own : l.entry = file) (once : s.locked.count file = 1) :
      Kept path p file s (some (.lock l))
  | bound {li} (site : s.fs.Site path p) (locks : s.fs.openFile (lockPath path) = .ok (file, s.fs))
      (alone : s.fs.standing p = [⟨li.entry, p.directory, p.name, .socket⟩])
      (here : li.path = path) (own : li.lock.entry = file) (once : s.locked.count file = 1) :
      Kept path p file s (some (.listener li))

namespace Kept

variable {hold : Option Hold} {l : SocketLock} {li : SocketListener}

theorem site (kept : s.Kept path p file hold) : s.fs.Site path p := by
  cases kept <;> assumption

theorem lockFile (kept : s.Kept path p file hold) :
    s.fs.openFile (lockPath path) = .ok (file, s.fs) := by
  cases kept <;> assumption

theorem own {h : Hold} (kept : s.Kept path p file (some h)) : h.socketLock.entry = file := by
  cases kept <;> assumption

theorem locks {h : Hold} (kept : s.Kept path p file (some h)) :
    s.Locks path h.socketLock.entry := by
  rw [kept.own]
  cases kept with
  | locked _ file _ _ once | bound _ file _ _ _ once =>
    exact ⟨List.count_pos_iff.mp (once ▸ Nat.one_pos), file⟩

theorem untouched (kept : s.Kept path p file hold) (onward : s.Onward s')
    (h : s.Untouched path s') : s'.Kept path p file hold := by
  have site := h.site onward kept.site
  have standing := h.standing p kept.site.spot
  have locked := h.locked file kept.lockFile
  have lockFile := h.openFile kept.lockFile
  cases kept with
  | free _ _ vacant unlocked =>
    exact .free site lockFile (standing.trans vacant) (locked.trans unlocked)
  | locked _ _ vacant own once =>
    exact .locked site lockFile (standing.trans vacant) own (locked.trans once)
  | bound _ _ alone here own once =>
    exact .bound site lockFile (standing.trans alone) here own (locked.trans once)

theorem of_eq (kept : s.Kept path p file hold) (fs : s'.fs = s.fs) (locked : s'.locked = s.locked) :
    s'.Kept path p file hold :=
  kept.untouched (.of_eq fs locked) (.of_eq fs locked)

theorem carryOut_fs (kept : s.Kept path p file hold) :
    (s.carryOut (.openFile (lockPath path))).fs = s.fs := by
  simp only [Sockets.carryOut, FileCall.apply, kept.lockFile]

theorem lock (kept : s.Kept path p file none) :
    ∃ l, (Transport.lock path s).value = .ok l ∧
      (Transport.lock path s).sockets.Kept path p file (some (.lock l)) := by
  cases kept with
  | free site locks vacant unlocked =>
    rw [Transport.lock_of_free locks (List.count_eq_zero.mp unlocked)]
    refine ⟨_, rfl, .locked site locks vacant rfl ?_⟩
    simp only [List.count_cons_self, unlocked]

theorem release (kept : s.Kept path p file (some (.lock l))) (fs : s'.fs = s.fs)
    (locked : s'.locked = s.locked.erase l.entry) : s'.Kept path p file none := by
  cases kept with
  | locked site locks vacant own once =>
    rw [← fs] at site locks vacant
    refine .free site locks vacant ?_
    rw [locked, own, List.count_erase_self, once]

theorem hasSocket (kept : s.Kept path p file (some (.lock l))) : Transport.hasSocket path s = false := by
  cases kept with
  | locked site _ vacant =>
    have nothing : s.fs.entryAt? path = none := by rw [site.entryAt?_eq_head?, vacant]; rfl
    simp only [Transport.hasSocket, nothing]

/-- Where nothing stands, there is nothing to remove. -/
theorem remove (kept : s.Kept path p file (some (.lock l))) : (Transport.remove path s).2 = s := by
  cases kept with
  | locked site _ vacant =>
    have nothing : s.fs.occupant? p = none := FileSystem.standing_eq_nil_iff.mp vacant
    simp only [Transport.remove, FileSystem.unlink, site.spot, nothing]

theorem exists_listener (kept : s.Kept path p file (some (.lock l))) :
    ∃ li, (Transport.listen path l s).value = .ok li := by
  cases kept with
  | locked site _ vacant =>
    simp only [Transport.listen, Sockets.bind, site.bindEntry vacant]
    exact ⟨_, rfl⟩

/-- A socket that is bound under the lock stands alone, whatever the path was like before. -/
theorem of_listen (wf : s.fs.WellFormed) (named : path ≠ "") (locks : s.Locks path l.entry)
    (once : s.locked.count l.entry = 1) (bound : (Transport.listen path l s).value = .ok li) :
    ∃ p, s.fs.Site path p ∧
      (Transport.listen path l s).sockets.Kept path p l.entry (some (.listener li)) := by
  obtain ⟨fs, made, here, rfl, hfs, hlocked⟩ := Transport.listen_eq_ok bound
  obtain ⟨p, site, vacant, entry, rfl⟩ := FileSystem.Site.of_bindEntry wf named made
  have onward := (FileSystem.Onward.bindEntry made).1
  have keeps := FileSystem.keeps_create wf p.directory p.name .socket
  have site' := site.keeps (onward.wellFormed wf) keeps
  have file' := keeps.openFile wf (fun _ _ => trivial) locks.file
  have alone := FileSystem.standing_create_self s.fs p .socket
  rw [vacant, List.nil_append, ← entry] at alone
  rw [← hfs] at site' file' alone
  exact ⟨p, site, .bound site' file' alone here rfl (hlocked ▸ once)⟩

theorem listen (kept : s.Kept path p file (some (.lock l)))
    (bound : (Transport.listen path l s).value = .ok li) :
    (Transport.listen path l s).sockets.Kept path p file (some (.listener li)) := by
  have locks := kept.locks
  cases kept with
  | locked site _ _ own once =>
    subst own
    obtain ⟨p', site', kept⟩ := of_listen site.wellFormed site.path_ne_empty locks once bound
    obtain rfl := Option.some.inj (Except.ok.inj (site.spot.symm.trans site'.spot))
    exact kept

theorem here (kept : s.Kept path p file (some (.listener li))) : li.path = path := by
  cases kept
  assumption

theorem stands (kept : s.Kept path p file (some (.listener li))) :
    s.fs.entryAt? path = some ⟨li.entry, p.directory, p.name, .socket⟩ := by
  cases kept with
  | bound site _ alone =>
    rw [site.entryAt?_eq_head?, alone]
    rfl

theorem closeListener_fs (kept : s.Kept path p file (some (.listener li))) :
    (Transport.closeListener li s).sockets.fs = s.fs.erase li.entry := by
  have removed := FileSystem.unlink_of_entryAt? kept.stands (by simp)
  rw [← kept.here] at removed
  simp only [Transport.closeListener, removed, Transport.unlock, unlisten_fs]

/-- A listener that goes leaves the lock file, and of its socket nothing. -/
theorem closeListener (kept : s.Kept path p file (some (.listener li))) :
    (Transport.closeListener li s).sockets.Kept path p file none ∧
      (Transport.closeListener li s).sockets.fs.Gone li.entry := by
  have stands := kept.stands
  have left := kept.closeListener_fs
  have released := Transport.closeListener_locked li s
  cases kept with
  | bound site locks alone here own once =>
    obtain ⟨keeps, files⟩ := FileSystem.keeps_erase_socket site.wellFormed stands rfl
    have wf' := site.wellFormed.erase li.entry
    have locks' := keeps.openFile site.wellFormed files locks
    have vacant := FileSystem.standing_erase alone
    have gone := site.wellFormed.gone_erase (FileSystem.mem_of_entryAt? stands)
    rw [← left] at keeps wf' locks' vacant gone
    refine ⟨.free (site.keeps wf' keeps) locks' vacant ?_, gone⟩
    rw [released, own, List.count_erase_self, once]

end Kept

/-- A vacant site whose lock file is yet to be made, and will not be made there. -/
structure Untaken (path : String) (p : Spot) (s : Sockets) : Prop where
  site : s.fs.Site path p
  vacant : s.fs.standing p = []
  unmade : ∃ directory name, s.fs.resolve .newFile (lockPath path) = .ok (.vacant directory name) ∧
    Spot.mk directory name ≠ p
  made : s.LocksMade

theorem Untaken.untouched (h : s.Untaken path p) (onward : s.Onward s')
    (same : s.Untouched path s') : s'.Untaken path p where
  site := same.site onward h.site
  vacant := (same.standing p h.site.spot).trans h.vacant
  unmade := by
    obtain ⟨directory, name, free, apart⟩ := h.unmade
    exact ⟨directory, name, same.lockFile.trans free, apart⟩
  made := onward.locksMade h.site.wellFormed h.made

/-- To open the lock file is to make it, and no more. -/
theorem Untaken.openFile (h : s.Untaken path p) : ∃ fs,
    s.fs.openFile (lockPath path) = .ok (s.fs.fresh, fs) ∧
      ({ s with fs := fs } : Sockets).Kept path p s.fs.fresh none := by
  obtain ⟨directory, name, free, apart⟩ := h.unmade
  have wf := h.site.wellFormed
  have opened : s.fs.openFile (lockPath path) =
      .ok (s.fs.fresh, s.fs.create directory name .file) := by
    simp only [FileSystem.openFile, free]
  obtain ⟨wf', keeps, again⟩ := FileSystem.openFile_eq_ok wf opened
  have unlocked : s.fs.fresh ∉ s.locked := fun held => (h.made _ held).false
  have vacant : (s.fs.create directory name .file).standing p = [] := by
    rw [FileSystem.standing_create_other apart, h.vacant]
  exact ⟨_, opened, .free (h.site.keeps wf' keeps) again vacant (List.count_eq_zero_of_not_mem unlocked)⟩

theorem Untaken.lock (h : s.Untaken path p) :
    ∃ l, (Transport.lock path s).value = .ok l ∧
      (Transport.lock path s).sockets.Kept path p s.fs.fresh (some (.lock l)) := by
  obtain ⟨fs, opened, kept⟩ := h.openFile
  have unlocked : s.fs.fresh ∉ s.locked := fun held => (h.made _ held).false
  obtain ⟨l, locked, kept'⟩ := kept.lock
  rw [Transport.lock_of_free kept.lockFile unlocked] at locked kept'
  rw [Transport.lock_of_free opened unlocked]
  exact ⟨l, locked, kept'⟩

theorem Untaken.carryOut (h : s.Untaken path p) :
    (s.carryOut (.openFile (lockPath path))).Kept path p s.fs.fresh none := by
  obtain ⟨fs, opened, kept⟩ := h.openFile
  refine kept.of_eq ?_ rfl
  simp only [Sockets.carryOut, FileCall.apply, opened]

/-- A path where nobody holds anything, and that can be bound. -/
inductive Ready (path : String) (p : Spot) (s : Sockets) : Prop
  | untaken (h : s.Untaken path p) : Ready path p s
  | kept {file : Nat} (h : s.Kept path p file none) : Ready path p s

end Sockets

namespace Hold.Change

variable {path : String} {p : Spot} {file : Nat} {s s' : Sockets} {hold hold' : Option Hold}

theorem kept (h : Change path s hold s' hold') (kept : s.Kept path p file hold) :
    s'.Kept path p file hold' := by
  cases h with
  | rest fs locked => exact kept.of_eq fs locked
  | lock locked =>
    obtain ⟨l, hl, kept'⟩ := kept.lock
    obtain rfl := Except.ok.inj (hl.symm.trans locked)
    exact kept'
  | lockFails refused =>
    obtain ⟨l, hl, -⟩ := kept.lock
    cases hl.symm.trans refused
  | release fs locked => exact kept.release fs locked
  | keep => exact kept
  | remove =>
    rw [kept.remove]
    exact kept
  | bind bound => exact kept.listen bound
  | bindFails unbound =>
    obtain ⟨li, hli⟩ := kept.exists_listener
    cases hli.symm.trans unbound
  | overflow bound => exact (kept.listen bound).closeListener.1
  | close same => exact (kept.of_eq same.fs same.locked).closeListener.1

/-- Of a socket nothing is left when its listener goes. -/
theorem gone {li : SocketListener} (h : Change path s (some (.listener li)) s' hold')
    (kept : s.Kept path p file (some (.listener li))) : s'.fs.Gone li.entry ∧ hold' = none := by
  cases h with
  | close same => exact ⟨(kept.of_eq same.fs same.locked).closeListener.2, rfl⟩

theorem untaken (h : Change path s none s' hold) (untaken : s.Untaken path p) :
    s'.Untaken path p ∧ hold = none ∨ ∃ file, s'.Kept path p file hold := by
  obtain ⟨l, hl, kept⟩ := untaken.lock
  cases h with
  | rest fs locked => exact .inl ⟨untaken.untouched (.of_eq fs locked) (.of_eq fs locked), rfl⟩
  | lock locked =>
    obtain rfl := Except.ok.inj (hl.symm.trans locked)
    exact .inr ⟨_, kept⟩
  | lockFails refused => cases hl.symm.trans refused

end Hold.Change

end EvidenceExchange
