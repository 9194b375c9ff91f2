import EvidenceExchange.Proofs.Handles

namespace EvidenceExchange

variable {s : Sockets} {live : List Hold} {path place : String} {l : SocketLock} {li : SocketListener}
  {e : Entry}

theorem Transport.reclaim_spares_other (wf : s.fs.WellFormed) (stands : s.fs.entryAt? place = some e)
    (other : s.fs.entryAt? path ≠ some e) (l : SocketLock) :
    (reclaim path l s).sockets.fs.entryAt? place = some e := by
  obtain ⟨gone, here, socket, removed⟩ | kept := reclaim_cases path l s
  · have ne : e ≠ gone := by
      rintro rfl
      exact other here
    obtain ⟨keeps, -⟩ := FileSystem.keeps_erase_socket wf here socket
    rw [removed]
    exact keeps.entryAt? wf stands ne
  · rw [kept]
    exact stands

/-- A socket goes if the path leads to it, whatever lock is shown. -/
theorem Transport.not_mem_reclaim_iff (wf : s.fs.WellFormed) (stands : s.fs.entryAt? place = some e)
    (socket : e.node = .socket) (path : String) (l : SocketLock) :
    e ∉ (reclaim path l s).sockets.fs.entries ↔ s.fs.entryAt? path = some e := by
  constructor
  · intro gone
    by_contra other
    exact gone (FileSystem.mem_of_entryAt? (reclaim_spares_other wf stands other l))
  · intro here left
    rw [reclaim_of_socket here socket] at left
    have ne := (List.mem_filter.mp left).2
    simp at ne

/-- Where everybody has the lock of the path they use, the paths lead to different things. -/
theorem Sockets.Tally.entryAt?_ne (t : s.Tally (.lock l :: live)) (listens : .listener li ∈ live)
    (mine : s.Locks path l.entry) (yours : s.Locks place li.lock.entry)
    (stands : s.fs.entryAt? place = some e) : s.fs.entryAt? path ≠ some e := by
  intro here
  have apart : li.lock.entry ≠ l.entry := t.apart listens
  exact apart (FileSystem.lock_file_unique stands here yours.file mine.file)

namespace Handles

variable {h start : Handles} {name lock : String}

/-- What any sequence of calls leads to, with any locks shown for any paths, whatever is done to the
files in between. -/
inductive Comes (start : Handles) : Handles → Prop
  | start : Comes start start
  | call {h : Handles} (call : HandleCall) (before : Comes start h) : Comes start (h.apply call).2.1

theorem ledger_tally : Ledger Sockets.Tally where
  perm := Sockets.Tally.perm
  sameFiles := Sockets.Tally.sameFiles
  lock := Sockets.Tally.lock
  lock_refused t := t.lock_refused
  unlock := Sockets.Tally.unlock
  close := Sockets.Tally.close

theorem tally_of_comes (run : start.Comes h) (unnamed : start.named = [])
    (unlocked : start.sockets.locked = []) (wf : start.sockets.fs.WellFormed) :
    h.Carries Sockets.Tally := by
  induction run with
  | start =>
    have nothing : start.holds = [] := by
      rw [holds, unnamed]
      rfl
    exact ⟨by simp [unnamed], wf, by simp [unlocked], by simp [unlocked, nothing]⟩
  | @call h call _ carries =>
    apply ledger_tally.apply carries call
    · rintro step rfl
      exact carries.books.onward (.apply h.sockets.fs step) rfl
    · rintro path lock name l li live rfl found held bound
      exact held.listen bound
    · rintro path lock l live rfl found held
      exact held.reclaim path l

theorem apply_reclaim (found : h.find? lock = some (.lock l)) (path : String) :
    (h.apply (.reclaim path lock)).2.1 = ⟨(Transport.reclaim path l h.sockets).sockets, h.named⟩ := by
  rw [Handles.apply, found]

theorem Carries.listener_mem (carries : h.Carries Sockets.Tally) (found : h.find? lock = some (.lock l))
    (listens : (name, .listener li) ∈ h.named) : .listener li ∈ (h.forget lock).holds := by
  have mem := (perm_of_find? carries.names found).mem_iff.mp listens
  obtain same | mem := List.mem_cons.mp mem
  · cases same
  · exact mem_holds mem rfl

/-- Which sockets of live listeners a reclaim removes, whatever locks, listeners and streams have been
made and dropped before, at any paths and under any locks. It removes a socket if and only if its path
leads to it; the lock that is shown does not matter. With the lock of its path it does not remove the
socket of a listener that has the lock of a path to it. So nobody's socket is ever removed where each
socket is bound and reclaimed under the lock of its own path. -/
theorem reclaim_removes_live_socket_iff (run : start.Comes h) (unnamed : start.named = [])
    (unlocked : start.sockets.locked = []) (wf : start.sockets.fs.WellFormed)
    (found : h.find? lock = some (.lock l)) (listens : (name, .listener li) ∈ h.named) (path : String) :
    (∀ place e, h.sockets.fs.entryAt? place = some e → e.id = li.entry → e.node = .socket →
      (e ∉ (h.apply (.reclaim path lock)).2.1.sockets.fs.entries ↔
        h.sockets.fs.entryAt? path = some e) ∧
      (h.sockets.Locks place li.lock.entry → h.sockets.Locks path l.entry →
        (h.apply (.reclaim path lock)).2.1.sockets.fs.entryAt? place = some e)) ∧
    (start.Reaches h → h.Allows (.reclaim path lock) → li.path ≠ "" →
      li.Stands (h.apply (.reclaim path lock)).2.1.sockets) := by
  have carries := tally_of_comes run unnamed unlocked wf
  have held := carries.books.perm (holds_perm carries.names found)
  refine ⟨fun place e stands _ socket => ⟨?_, fun yours mine => ?_⟩, fun disciplined allowed named => ?_⟩
  · rw [apply_reclaim found]
    exact Transport.not_mem_reclaim_iff held.wellFormed stands socket path l
  · have other := held.entryAt?_ne (carries.listener_mem found listens) mine yours stands
    rw [apply_reclaim found]
    exact Transport.reclaim_spares_other held.wellFormed stands other l
  · have inOrder := (inOrder_of_reaches disciplined unnamed unlocked wf).apply allowed
    have still : (name, .listener li) ∈ (h.apply (.reclaim path lock)).2.1.named := by
      rw [apply_reclaim found]
      exact listens
    cases inOrder.books.sound _ (mem_holds still rfl) with
    | unnamed empty => exact absurd empty named
    | bound kept => exact ⟨_, kept.stands, rfl, rfl⟩

def neighbours : Handles :=
  (((empty.apply (.lock "a" "l")).2.1.apply (.listen "a" "l" "n")).2.1.apply (.lock "b" "m")).2.1

theorem comes_neighbours : empty.Comes neighbours :=
  .call (.lock "b" "m") (.call (.listen "a" "l" "n") (.call (.lock "a" "l") .start))

/-- The lock of the one path lets a reclaim at the other remove the socket there, and spares it at its
own. -/
theorem reclaim_removes_live_socket_iff_neighbours :
    (⟨2, 0, "a", .socket⟩ : Entry) ∉ (neighbours.apply (.reclaim "a" "m")).2.1.sockets.fs.entries ∧
      (neighbours.apply (.reclaim "b" "m")).2.1.sockets.fs.entryAt? "a" =
        some ⟨2, 0, "a", .socket⟩ := by
  have found : neighbours.find? "m" = some (.lock ⟨"b.lock", 3⟩) := rfl
  have listens : ("n", .listener ⟨"a", 2, ⟨"a.lock", 1⟩⟩) ∈ neighbours.named := .tail _ (.head _)
  have stands : neighbours.sockets.fs.entryAt? "a" = some ⟨2, 0, "a", .socket⟩ := rfl
  have yours : neighbours.sockets.Locks "a" 1 := ⟨by decide, rfl⟩
  have mine : neighbours.sockets.Locks "b" 3 := ⟨by decide, rfl⟩
  have removes := reclaim_removes_live_socket_iff comes_neighbours rfl rfl FileSystem.wellFormed_empty
    found listens
  obtain ⟨there, -⟩ := (removes "a").1 "a" _ stands rfl rfl
  obtain ⟨-, here⟩ := (removes "b").1 "a" _ stands rfl rfl
  exact ⟨there.mpr stands, here yours mine⟩

/-- With the lock of another path, a reclaim removes the socket of a listener that lives on. -/
theorem reclaim_under_foreign_lock_removes_live_socket :
    ∃ h li l, empty.Comes h ∧ ("n", .listener li) ∈ h.named ∧ li.Stands h.sockets ∧
      h.find? "m" = some (.lock l) ∧ (h.apply (.reclaim li.path "m")).1 = .reclaimed true ∧
      ("n", .listener li) ∈ (h.apply (.reclaim li.path "m")).2.1.named ∧
      ∀ e ∈ (h.apply (.reclaim li.path "m")).2.1.sockets.fs.entries, e.id ≠ li.entry := by
  have stands : (⟨"a", 2, ⟨"a.lock", 1⟩⟩ : SocketListener).Stands neighbours.sockets := ⟨_, rfl, rfl, rfl⟩
  exact ⟨neighbours, ⟨"a", 2, ⟨"a.lock", 1⟩⟩, ⟨"b.lock", 3⟩, comes_neighbours, .tail _ (.head _), stands,
    rfl, rfl, .tail _ (.head _), by decide⟩

end Handles

end EvidenceExchange
