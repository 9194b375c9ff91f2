import EvidenceExchange.Handles
import EvidenceExchange.Proofs.Bookkeeping

namespace EvidenceExchange

open Transport (lockPath)

/-- Paths that end in the same name in the same directory, however they are spelled. -/
def FileSystem.SameName (fs : FileSystem) (path path' : String) : Prop :=
  path = path' ∨ ∃ p, fs.spot? path = .ok (some p) ∧ fs.spot? path' = .ok (some p) ∧
    endsInSlash path = false ∧ endsInSlash path' = false

theorem FileSystem.SameName.lock_file_eq {fs : FileSystem} {path path' : String} {id id' : Nat}
    (same : fs.SameName path path') (lock : fs.openFile (lockPath path) = .ok (id, fs))
    (lock' : fs.openFile (lockPath path') = .ok (id', fs)) : id = id' := by
  obtain rfl | ⟨p, spot, spot', plain, plain'⟩ := same
  · exact congrArg Prod.fst (Except.ok.inj (lock.symm.trans lock'))
  · exact lock_file_unique_of_spot spot spot' plain plain' lock lock'

theorem Transport.sameFiles_accept {li : SocketListener} {s : Sockets}
    {o : Outcome (Except IoError Endpoint)} (accepted : accept li s = some o) : s.SameFiles o.sockets := by
  obtain ⟨_, -, rfl⟩ | ⟨_, _, -, taken, rfl⟩ := accept_eq_some accepted
  · exact .refl s
  · exact Sockets.sameFiles_accept taken

/-- What a handle holds, if it is no stream. -/
def Handle.hold? : Handle → Option Hold
  | .lock l => some (.lock l)
  | .listener li => some (.listener li)
  | .stream _ => none

namespace Handles

variable {h start : Handles} {name name' path path' : String} {a : Handle} {l : SocketLock}
  {li : SocketListener} {B : Sockets → List Hold → Prop}

/-- All that is held under some name. -/
def holds (h : Handles) : List Hold := h.named.filterMap fun x => x.2.hold?

/-- The handle of a name has the lock of a path, itself or in a listener. -/
def HasLock (h : Handles) (path name : String) : Prop :=
  ∃ a hold, (name, a) ∈ h.named ∧ a.hold? = some hold ∧ h.sockets.Locks path hold.entry

/-- Of what is done to the files, nothing is taken away or replaced, and whoever listens at a path or
reclaims it shows the lock of that path. -/
def Allows (h : Handles) : HandleCall → Prop
  | .file step => step.Adds
  | .listen path lock _ | .reclaim path lock =>
    ∀ l, h.find? lock = some (.lock l) → h.sockets.Locks path l.entry
  | _ => True

/-- What a sequence of such calls leads to. -/
inductive Reaches (start : Handles) : Handles → Prop
  | start : Reaches start start
  | call {h : Handles} (call : HandleCall) (before : Reaches start h) (allowed : h.Allows call) :
      Reaches start (h.apply call).2.1

/-- Each name has one handle, and the books are in order. -/
structure InOrder (h : Handles) : Prop where
  names : (h.named.map Prod.fst).Nodup
  books : h.sockets.Books h.holds

/-- Each name has one handle, and some sort of books holds of all that is held. -/
structure Carries (B : Sockets → List Hold → Prop) (h : Handles) : Prop where
  names : (h.named.map Prod.fst).Nodup
  books : B h.sockets h.holds

/-- Books that bear whatever is done without showing a lock for a path. -/
structure Ledger (B : Sockets → List Hold → Prop) : Prop where
  perm : ∀ {s live live'}, B s live → live.Perm live' → B s live'
  sameFiles : ∀ {s s' live}, B s live → s.SameFiles s' → B s' live
  lock : ∀ {s live path l}, B s live → (Transport.lock path s).value = .ok l →
    B (Transport.lock path s).sockets (.lock l :: live)
  lock_refused : ∀ {s live path e}, B s live → (Transport.lock path s).value = .error e →
    B (Transport.lock path s).sockets live
  unlock : ∀ {s live l}, B s (.lock l :: live) → B (Transport.unlock l s) live
  close : ∀ {s live li}, B s (.listener li :: live) → B (Transport.closeListener li s).sockets live

theorem perm_of_lookup {named : List (String × Handle)} (names : (named.map Prod.fst).Nodup)
    (found : named.lookup name = some a) : named.Perm ((name, a) :: named.filter (·.1 != name)) := by
  induction named with
  | nil => cases found
  | cons x rest ih =>
    obtain ⟨first, b⟩ := x
    rw [List.map_cons, List.nodup_cons] at names
    by_cases same : name = first
    · subst same
      rw [List.lookup_cons_self] at found
      obtain rfl := Option.some.inj found
      have others : rest.filter (·.1 != name) = rest := by
        refine List.filter_eq_self.mpr fun x mem => bne_iff_ne.mpr ?_
        rintro rfl
        exact names.1 (List.mem_map.mpr ⟨x, mem, rfl⟩)
      simp only [List.filter_cons, bne_self_eq_false, Bool.false_eq_true, if_false, others]
      exact .refl _
    · rw [List.lookup_cons, beq_false_of_ne same] at found
      have kept : (first != name) = true := by simpa using Ne.symm same
      simp only [List.filter_cons, kept, if_true]
      exact ((ih names.2 found).cons _).trans (.swap _ _ _)

theorem perm_of_find? (names : (h.named.map Prod.fst).Nodup) (found : h.find? name = some a) :
    h.named.Perm ((name, a) :: (h.forget name).named) :=
  perm_of_lookup names found

theorem holds_perm (names : (h.named.map Prod.fst).Nodup) (found : h.find? name = some a) :
    h.holds.Perm (a.hold?.toList ++ (h.forget name).holds) := by
  have same := (perm_of_find? names found).filterMap fun x => x.2.hold?
  rw [List.filterMap_cons] at same
  cases held : a.hold? with
  | none | some =>
    simp only [held] at same
    exact same

theorem forget_of_none (missing : h.find? name = none) : h.forget name = h := by
  have others : h.named.filter (·.1 != name) = h.named := by
    refine List.filter_eq_self.mpr fun x mem => ?_
    have ne := List.lookup_eq_none_iff.mp missing x mem
    exact bne_iff_ne.mpr (Ne.symm (bne_iff_ne.mp ne))
  simp only [forget, others]

theorem names_forget (names : (h.named.map Prod.fst).Nodup) (name : String) :
    ((h.forget name).named.map Prod.fst).Nodup :=
  names.sublist (List.filter_sublist.map _)

theorem not_mem_forget (name : String) : name ∉ (h.forget name).named.map Prod.fst := by
  intro mem
  obtain ⟨x, mem, same⟩ := List.mem_map.mp mem
  have ne := (List.mem_filter.mp mem).2
  simp [same] at ne

theorem Ledger.release (ledger : Ledger B) {s : Sockets} {live : List Hold}
    (b : B s (a.hold?.toList ++ live)) : B (release s a).sockets live := by
  cases a with
  | lock => exact ledger.unlock b
  | listener => exact ledger.close b
  | stream e => exact ledger.sameFiles b ((Sockets.SameFiles.refl s).close e)

theorem Ledger.dropName (ledger : Ledger B) (new : List Hold) (names : (h.named.map Prod.fst).Nodup)
    (b : B h.sockets (new ++ h.holds)) (name : String) :
    B (h.dropName name).1.sockets (new ++ (h.forget name).holds) ∧
      (h.dropName name).1.named = (h.forget name).named := by
  unfold Handles.dropName
  cases found : h.find? name with
  | none =>
    rw [forget_of_none found]
    exact ⟨b, rfl⟩
  | some a =>
    refine ⟨ledger.release (ledger.perm b ?_), rfl⟩
    have same := (holds_perm names found).append_left new
    rw [← List.append_assoc] at same
    rw [← List.append_assoc]
    exact same.trans (List.perm_append_comm.append_right _)

theorem Ledger.put (ledger : Ledger B) (names : (h.named.map Prod.fst).Nodup)
    (b : B h.sockets (a.hold?.toList ++ h.holds)) (log : List LogEvent) :
    (h.put name a log).1.Carries B := by
  obtain ⟨books, left⟩ := ledger.dropName _ names b name
  have named : (h.put name a log).1.named = (name, a) :: (h.forget name).named := by
    rw [← left]
    rfl
  refine ⟨?_, ?_⟩
  · rw [named, List.map_cons]
    exact List.nodup_cons.mpr ⟨not_mem_forget name, names_forget names name⟩
  · have holds : (h.put name a log).1.holds = a.hold?.toList ++ (h.forget name).holds := by
      rw [Handles.holds, named, List.filterMap_cons]
      cases a.hold? <;> rfl
    rw [holds]
    exact books

theorem Ledger.settle (ledger : Ledger B) {α : Type} {o : Outcome (Except IoError α)}
    {wrap : α → Handle} {reply : α → HandleAnswer} (names : (h.named.map Prod.fst).Nodup)
    (refused : ∀ e, o.value = .error e → B o.sockets h.holds)
    (taken : ∀ x, o.value = .ok x → B o.sockets ((wrap x).hold?.toList ++ h.holds)) :
    (h.settle name o wrap reply).2.1.Carries B := by
  unfold Handles.settle
  cases value : o.value with
  | error e => exact ⟨names, refused e value⟩
  | ok x => exact ledger.put (h := { h with sockets := o.sockets }) names (taken x value) o.log

theorem sameFiles_writeAll (s : Sockets) (e : Endpoint) (data : Bytes) :
    s.SameFiles (writeAll s e data).2 := by
  have same := Sockets.sameFiles_write s e data data.length
  unfold writeAll
  split
  next wrote =>
    rw [wrote] at same
    exact same
  next blocked =>
    rw [blocked] at same
    exact same
  next broken =>
    rw [broken] at same
    exact same

theorem sameFiles_readFrame (e : Endpoint) (reads : Nat) (reader : FrameReader) (s : Sockets) :
    s.SameFiles (readFrame e reads reader s).2 := by
  induction reads generalizing reader s with
  | zero => exact .refl s
  | succ reads ih =>
    have same := Sockets.sameFiles_read s e reader.room
    unfold readFrame
    split
    next bytes s' read =>
      rw [read] at same
      split
      next => exact same
      next reader' _ => exact same.trans (ih reader' s')
    next ended =>
      rw [ended] at same
      exact same
    next failed =>
      rw [failed] at same
      exact same
    next blocked =>
      rw [blocked] at same
      exact same

/-- A call leaves the books as they have to be, if it does where it shows a lock for a path. -/
theorem Ledger.apply (ledger : Ledger B) (carries : h.Carries B) (call : HandleCall)
    (file : ∀ {step}, call = .file step → B (h.sockets.applyFileStep step).2 h.holds)
    (listen : ∀ {path lock name l li live}, call = .listen path lock name →
      h.find? lock = some (.lock l) → B h.sockets (.lock l :: live) →
      (Transport.listen path l h.sockets).value = .ok li →
      B (Transport.listen path l h.sockets).sockets (.listener li :: live))
    (reclaim : ∀ {path lock l live}, call = .reclaim path lock → h.find? lock = some (.lock l) →
      B h.sockets (.lock l :: live) → B (Transport.reclaim path l h.sockets).sockets (.lock l :: live)) :
    (h.apply call).2.1.Carries B := by
  obtain ⟨names, books⟩ := carries
  have kept {s : Sockets} (same : h.sockets.SameFiles s) : Carries B { h with sockets := s } :=
    ⟨names, ledger.sameFiles books same⟩
  cases call with
  | file step => exact ⟨names, file rfl⟩
  | lock path name =>
    exact ledger.settle names (fun _ => ledger.lock_refused books) fun _ => ledger.lock books
  | listen path lock name =>
    rw [Handles.apply]
    split
    next l found =>
      have held := ledger.perm books (holds_perm names found)
      refine ledger.settle (names_forget names lock) (fun e unbound => ?_) fun li => listen rfl found held
      rw [Transport.listen_eq_error unbound]
      exact ledger.unlock held
    next => exact ⟨names, books⟩
  | reclaim path lock =>
    rw [Handles.apply]
    split
    next l found =>
      have same := holds_perm names found
      exact ⟨names, ledger.perm (reclaim rfl found (ledger.perm books same)) same.symm⟩
    next => exact ⟨names, books⟩
  | connect path name =>
    have same := ledger.sameFiles books (Sockets.sameFiles_connect h.sockets path)
    exact ledger.settle names (fun _ _ => same) fun _ _ => same
  | accept listener name =>
    rw [Handles.apply]
    split
    next li found =>
      split
      next o accepted =>
        have same := ledger.sameFiles books (Transport.sameFiles_accept accepted)
        exact ledger.settle names (fun _ _ => same) fun _ _ => same
      next => exact ⟨names, books⟩
    next => exact ⟨names, books⟩
  | write stream data =>
    rw [Handles.apply]
    split
    next e found => exact kept (sameFiles_writeAll h.sockets e data)
    next => exact ⟨names, books⟩
  | readFrame stream =>
    rw [Handles.apply]
    split
    next e found => exact kept (sameFiles_readFrame e _ _ h.sockets)
    next => exact ⟨names, books⟩
  | drop name =>
    rw [Handles.apply]
    split
    next =>
      obtain ⟨books', left⟩ := ledger.dropName [] names books name
      refine ⟨left ▸ names_forget names name, ?_⟩
      have holds : (h.dropName name).1.holds = (h.forget name).holds := by
        rw [Handles.holds, left]
        rfl
      rw [holds]
      exact books'
    next => exact ⟨names, books⟩

theorem ledger_books : Ledger Sockets.Books where
  perm := Sockets.Books.perm
  sameFiles := Sockets.Books.sameFiles
  lock := Sockets.Books.lock
  lock_refused b refused := (b.lock_refused refused).symm ▸ b
  unlock := Sockets.Books.unlock
  close := Sockets.Books.close

theorem InOrder.apply (inOrder : h.InOrder) {call : HandleCall} (allowed : h.Allows call) :
    (h.apply call).2.1.InOrder := by
  have books := inOrder.books
  have carries : (h.apply call).2.1.Carries Sockets.Books := by
    apply ledger_books.apply ⟨inOrder.names, books⟩ call
    · rintro step rfl
      exact books.grows (FileStep.Adds.grows allowed books.wellFormed) rfl
    · rintro path lock name l li live rfl found held bound
      exact held.listen (allowed l found) bound
    · rintro path lock l live rfl found held
      exact held.reclaim (allowed l found)
  exact ⟨carries.names, carries.books⟩

theorem inOrder_of_reaches (run : start.Reaches h) (unnamed : start.named = [])
    (unlocked : start.sockets.locked = []) (wf : start.sockets.fs.WellFormed) : h.InOrder := by
  induction run with
  | start =>
    have nothing : start.holds = [] := by
      rw [holds, unnamed]
      rfl
    refine ⟨by simp [unnamed], wf, by simp [unlocked], by simp [unlocked, nothing], fun hold mem => ?_⟩
    rw [nothing] at mem
    cases mem
  | call call _ allowed ih => exact ih.apply allowed

theorem mem_holds {hold : Hold} (mem : (name, a) ∈ h.named) (held : a.hold? = some hold) :
    hold ∈ h.holds :=
  List.mem_filterMap.mpr ⟨_, mem, held⟩

/-- No lock is under two names. -/
theorem InOrder.name_eq (inOrder : h.InOrder) (same : h.sockets.fs.SameName path path')
    (first : h.HasLock path name) (second : h.HasLock path' name') : name = name' := by
  obtain ⟨a, hold, mem, held, locks⟩ := first
  obtain ⟨a', hold', mem', held', locks'⟩ := second
  have once := inOrder.books.booked.nodup_iff.mp inOrder.books.once
  rw [holds, List.Nodup, List.pairwise_map, List.pairwise_filterMap] at once
  have swap : Std.Symm fun x y : String × Handle => ∀ hold, x.2.hold? = some hold →
      ∀ hold', y.2.hold? = some hold' → hold.entry ≠ hold'.entry :=
    ⟨fun _ _ apart hold held hold' held' => (apart hold' held' hold held).symm⟩
  by_contra ne
  have apart := once.forall mem mem' fun same => ne (congrArg Prod.fst same)
  exact apart hold held hold' held' (same.lock_file_eq locks.file locks'.file)

theorem not_hasLock {fs : FileSystem} {entry : Nat}
    (opened : h.sockets.fs.openFile (lockPath path) = .ok (entry, fs)) (free : entry ∉ h.sockets.locked)
    (name : String) : ¬h.HasLock path name := by
  rintro ⟨a, hold, -, -, locks⟩
  obtain rfl := congrArg Prod.fst (Except.ok.inj (opened.symm.trans locks.file))
  exact free locks.held

theorem InOrder.exists_hasLock (inOrder : h.InOrder) {fs : FileSystem} {entry : Nat}
    (opened : h.sockets.fs.openFile (lockPath path) = .ok (entry, fs)) (held : entry ∈ h.sockets.locked) :
    ∃ name, h.HasLock path name := by
  obtain ⟨hold, mem, rfl⟩ := inOrder.books.exists_holder held
  obtain ⟨⟨name, a⟩, mem, holds⟩ := List.mem_filterMap.mp mem
  exact ⟨name, a, hold, mem, holds, held, inOrder.books.fs_eq_of_held opened held ▸ opened⟩

/-- Where something is, listening fails, and the lock is given back. -/
theorem apply_listen_of_occupied {lock : String} (found : h.find? lock = some (.lock l))
    (occupied : h.sockets.fs.Occupied path) (name : String) :
    ∃ e, h.apply (.listen path lock name) =
      (.ioError e, ⟨Transport.unlock l h.sockets, (h.forget lock).named⟩, []) := by
  cases made : Sockets.bindEntry h.sockets.fs path with
  | ok bound => exact absurd made (occupied.bindEntry_ne_ok bound)
  | error e =>
    refine ⟨e, ?_⟩
    rw [Handles.apply, found]
    simp only [Transport.listen, Sockets.bind, made, settle]

theorem apply_drop_listener (found : h.find? name = some (.listener li)) :
    (h.apply (.drop name)).2.1 =
      ⟨(Transport.closeListener li h.sockets).sockets, (h.forget name).named⟩ := by
  rw [Handles.apply, found]
  simp only [dropName, found, release]

theorem reaches_listening (start : Handles) (path : String) (l : SocketLock)
    (found : (start.apply (.lock path "l")).2.1.find? "l" = some (.lock l))
    (locks : (start.apply (.lock path "l")).2.1.sockets.Locks path l.entry) :
    start.Reaches ((start.apply (.lock path "l")).2.1.apply (.listen path "l" "n")).2.1 := by
  refine .call (.listen path "l" "n") (.call (.lock path "l") .start trivial) fun l' found' => ?_
  obtain rfl := Handle.lock.inj (Option.some.inj (found.symm.trans found'))
  exact locks

/-- Whatever locks, listeners and streams are made and dropped, at any paths and in any order, each path has
one live lock at most, in a listener or waiting for one. It can be locked if its lock file can be opened
and nobody has the lock. A live listener's socket stands at its path, except at the empty path, which
names none. Where something stands already, listening fails and gives the lock back. When a listener is
dropped, its socket is gone and the lock file is left, and the path can be locked and listened at again. -/
theorem locks_and_listeners_in_order (run : start.Reaches h) (unnamed : start.named = [])
    (unlocked : start.sockets.locked = []) (wf : start.sockets.fs.WellFormed) :
    (h.named.map Prod.fst).Nodup ∧
    (∀ path path' name name', h.sockets.fs.SameName path path' → h.HasLock path name →
      h.HasLock path' name' → name = name') ∧
    (∀ name l, (name, .lock l) ∈ h.named → ∃ path, l.file = lockPath path ∧ h.HasLock path name) ∧
    (∀ name li, (name, .listener li) ∈ h.named →
      h.HasLock li.path name ∧ (li.path ≠ "" → li.Stands h.sockets)) ∧
    (∀ path entry fs, h.sockets.fs.openFile (lockPath path) = .ok (entry, fs) →
      ((∃ l, (Transport.lock path h.sockets).value = .ok l) ↔ ∀ name, ¬h.HasLock path name) ∧
      ∀ name, h.HasLock path name →
        Transport.lock path h.sockets = ⟨.error (Transport.heldElsewhere path), h.sockets, []⟩) ∧
    (∀ path lock l name, h.find? lock = some (.lock l) → h.sockets.fs.Occupied path →
      ∃ e h', h.apply (.listen path lock name) = (.ioError e, h', []) ∧
        h'.sockets.fs = h.sockets.fs ∧
        ∀ own, h.sockets.Locks own l.entry → ∀ other, ¬h'.HasLock own other) ∧
    ∀ name li, h.find? name = some (.listener li) →
      ∃ h', (h.apply (.drop name)).2.1 = h' ∧ h'.sockets.fs.entryAt? li.path = none ∧
        h'.sockets.fs.openFile (lockPath li.path) = .ok (li.lock.entry, h'.sockets.fs) ∧
        (∀ other, ¬h'.HasLock li.path other) ∧
        ∃ l li', (Transport.lock li.path h'.sockets).value = .ok l ∧
          (Transport.listen li.path l (Transport.lock li.path h'.sockets).sockets).value = .ok li' := by
  have inOrder := inOrder_of_reaches run unnamed unlocked wf
  have books := inOrder.books
  refine ⟨inOrder.names, fun path path' name name' => inOrder.name_eq, fun name l mem => ?_,
    fun name li mem => ?_, fun path entry fs opened => ⟨⟨?_, fun free => ?_⟩, ?_⟩,
    fun path lock l name found occupied => ?_, fun name li found => ?_⟩
  · cases books.sound _ (mem_holds mem rfl) with
    | lock file locks => exact ⟨_, file, _, _, mem, rfl, locks⟩
  · have sound := books.sound _ (mem_holds mem rfl)
    refine ⟨⟨_, _, mem, rfl, sound.listener_locks⟩, fun named => ?_⟩
    cases sound with
    | unnamed empty => exact absurd empty named
    | bound kept => exact ⟨_, kept.stands, rfl, rfl⟩
  · rintro ⟨l, locked⟩ name has
    obtain ⟨fs, opened, free, -⟩ := Transport.lock_eq_ok locked
    exact not_hasLock opened free name has
  · by_cases held : entry ∈ h.sockets.locked
    · obtain ⟨name, has⟩ := inOrder.exists_hasLock opened held
      exact absurd has (free name)
    · rw [Transport.lock_of_free opened held]
      exact ⟨_, rfl⟩
  · rintro name ⟨a, hold, -, -, locks⟩
    exact Transport.lock_of_locks locks
  · obtain ⟨e, fails⟩ := apply_listen_of_occupied found occupied name
    exact ⟨e, _, fails, rfl, fun own locks => not_hasLock locks.file books.once.not_mem_erase⟩
  · obtain ⟨vacant, file, free, again⟩ := (books.perm (holds_perm inOrder.names found)).vacated
    exact ⟨_, apply_drop_listener found, vacant, file, not_hasLock file free, again⟩

theorem locks_and_listeners_in_order_listening :
    ∃ h li, empty.Reaches h ∧ empty.named = [] ∧ empty.sockets.locked = [] ∧
      empty.sockets.fs.WellFormed ∧ ("n", .listener li) ∈ h.named ∧ h.HasLock "s" "n" ∧
      li.Stands h.sockets := by
  have run := reaches_listening empty "s" ⟨"s.lock", 1⟩ rfl ⟨by decide, rfl⟩
  obtain ⟨-, -, -, listens, -⟩ := locks_and_listeners_in_order run rfl rfl FileSystem.wellFormed_empty
  obtain ⟨has, stands⟩ := listens "n" ⟨"s", 2, ⟨"s.lock", 1⟩⟩ List.mem_cons_self
  exact ⟨_, _, run, rfl, rfl, FileSystem.wellFormed_empty, List.mem_cons_self, has, stands (by decide)⟩

/-- Nothing stands at the empty path while somebody listens there; and where a link leads to the lock file
of another path, a path that nobody has locked cannot be locked. -/
theorem listener_without_file :
    ∃ h li,
      Reaches ⟨{ Sockets.empty with fs := FileSystem.empty.create 0 "x.lock" (.symlink ".lock") }, []⟩ h ∧
      h.named = [("n", .listener li)] ∧ li.path = "" ∧ h.sockets.fs.entryAt? "" = none ∧
      li.lock.file = ".lock" ∧
      (Transport.lock "x" h.sockets).value = .error (Transport.heldElsewhere "x") :=
  ⟨_, ⟨"", 3, ⟨".lock", 2⟩⟩, reaches_listening _ "" ⟨".lock", 2⟩ rfl ⟨by decide, rfl⟩,
    rfl, rfl, rfl, rfl, rfl⟩

end Handles

end EvidenceExchange
