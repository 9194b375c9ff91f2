import EvidenceExchange.Proofs.FileSystem.Opening
import EvidenceExchange.Proofs.Locking
import EvidenceExchange.Proofs.Moves.Receiver

namespace EvidenceExchange

open Transport (lockPath)

namespace Receiver

/-- A call goes on as long as its context has not ended. -/
def goesOn : Option Cancellation → Except ExchangeError Unit
  | some cause => .error (.ofCancellation cause)
  | none => .ok ()

/-- The checks of a receiver that has found a socket to remove. -/
def checksRemoving (r : Receiver) (told : Nat → Option Cancellation) (l : SocketLock) (s : Sockets) :
    Except ExchangeError SocketListener := do
  let removed := Transport.remove r.path s
  goesOn (told 3)
  goesOn (told 4)
  let _ ← (Transport.afterRemoval r.path removed.1).1.mapError (.bindFailed r.path)
  (Transport.listen r.path l removed.2).value.mapError (.bindFailed r.path)

/-- The checks of a receiver that has its lock. -/
def checksUnderLock (r : Receiver) (told : Nat → Option Cancellation) (l : SocketLock) (s : Sockets) :
    Except ExchangeError SocketListener :=
  if r.config.reclaimStaleSocket then do
    goesOn (told 2)
    if Transport.hasSocket r.path s then r.checksRemoving told l s
    else (Transport.listen r.path l s).value.mapError (.bindFailed r.path)
  else (Transport.listen r.path l s).value.mapError (.bindFailed r.path)

/-- The checks of a receiver before it listens, in their order, with what its context tells at its
polls. -/
def checks (r : Receiver) (told : Nat → Option Cancellation) (s : Sockets) :
    Except ExchangeError SocketListener := do
  r.config.validate
  goesOn (told 0)
  goesOn (told 1)
  let l ← (Transport.lock r.path s).value.mapError (.bindFailed r.path)
  r.checksUnderLock told l (Transport.lock r.path s).sockets

/-- A receiver that nobody disturbs, after so many polls before it listens or fails. `told` is what its
context tells at each. -/
inductive Early (r : Receiver) (told : Nat → Option Cancellation) (s : Sockets) :
    Nat → Receiver → Sockets → Prop
  | fresh : Early r told s 0 r s
  | move {polls r' s' grain ts now o} (before : Early r told s polls r' s')
      (early : r'.phase.rank < 6) (tells : r.context.ended? ts now = told polls)
      (moved : r'.move grain ts now s' = some o) : Early r told s (polls + 1) o.value o.sockets

/-- A socket that a receiver removed under the lock of its path, as it was told to. -/
structure Reclaimed (r : Receiver) (s : Sockets) (e : Entry) : Prop where
  asked : r.config.reclaimStaleSocket = true
  locked : ∃ l, (Transport.lock r.path s).value = .ok l
  stood : s.fs.entryAt? r.path = some e
  socket : e.node = .socket

/-- What a receiver that is refused leaves of the world around it. All that stood at any path still stands,
and all locks are held that were held, and no others. At most a socket was removed that was to be reclaimed
and a file made where the path of the lock file leads: that is the lock file itself, or a link stands there. -/
structure LeavesRest (r : Receiver) (s s' : Sockets) : Prop where
  rest : s' = { s with fs := s'.fs, detached := s'.detached }
  locks : ∀ {path entry}, s.Locks path entry → s'.Locks path entry
  stands : ∀ path e, s.fs.entryAt? path = some e → s'.fs.entryAt? path = some e ∨ r.Reclaimed s e
  within : ∀ path directory, s.fs.resolve .named path = .ok (.within directory) →
    s'.fs.resolve .named path = .ok (.within directory)
  made : ∀ e ∈ s'.fs.entries, e ∈ s.fs.entries ∨ e.node = .file ∧
    s.fs.resolve .newFile (lockPath r.path) = .ok (.vacant e.parent e.name) ∧
      (s'.fs.entryAt? (lockPath r.path) = some e ∨ s.fs.HasLink (lockPath r.path))
  vacant : s.fs.entryAt? r.path = none → ∀ e, s'.fs.entryAt? r.path = some e →
    e.node = .file ∧ s.fs.HasLink (lockPath r.path)

/-- It leaves one call on files under way at most, and the rest is also left when that takes effect. -/
def LeavesBehind (r : Receiver) (s s' : Sockets) : Prop :=
  s'.detached = s.detached ∨
    ∃ call, s'.detached = s.detached ++ [call] ∧ r.LeavesRest s (s'.carryOut call)

variable {r : Receiver} {told : Nat → Option Cancellation} {s s' : Sockets} {l : SocketLock}

theorem LeavesRest.refl (r : Receiver) (s : Sockets) : r.LeavesRest s s where
  rest := rfl
  locks := id
  stands _ _ := .inl
  within _ _ := id
  made _ := .inl
  vacant none e some := by cases none.symm.trans some

/-- What is under way has no part in it. -/
theorem LeavesRest.with_detached (leaves : r.LeavesRest s s') (calls : List FileCall) :
    r.LeavesRest s { s' with detached := calls } where
  rest := by rw [leaves.rest]
  locks held := ⟨(leaves.locks held).held, (leaves.locks held).file⟩
  stands := leaves.stands
  within := leaves.within
  made := leaves.made
  vacant := leaves.vacant

theorem leavesRest_of_opened {fs : FileSystem} (wf : s.fs.WellFormed) (opened : s.fs.Opened fs r.path) :
    r.LeavesRest s { s with fs := fs } where
  rest := rfl
  locks held := ⟨held.held, opened.keeps.openFile wf (fun _ _ => trivial) held.file⟩
  stands _ _ stands := .inl (opened.keeps.entryAt? wf stands trivial)
  within _ _ := opened.keeps.within wf
  made := opened.made
  vacant none e shown := by
    obtain old | ⟨-, file, link⟩ := opened.shown e shown
    · cases none.symm.trans old
    · exact ⟨file, link⟩

theorem leavesRest_of_erased {fs : FileSystem} {e : Entry} (wf : s.fs.WellFormed)
    (opened : s.fs.Opened fs r.path) (locked : ∃ l, (Transport.lock r.path s).value = .ok l)
    (asked : r.config.reclaimStaleSocket = true) (stood : fs.entryAt? r.path = some e)
    (socket : e.node = .socket) : r.LeavesRest s { s with fs := fs.erase e.id } := by
  obtain ⟨keeps, other⟩ := FileSystem.keeps_erase_socket opened.wellFormed stood socket
  have first : s.fs.entryAt? r.path = some e := by
    obtain old | ⟨-, isFile, -⟩ := opened.shown e stood
    · exact old
    · cases socket.symm.trans isFile
  refine ⟨rfl, fun held => ⟨held.held, ?_⟩, fun path x stands => ?_, fun _ _ leads => ?_, fun x mem => ?_,
    fun none => ?_⟩
  · exact keeps.openFile opened.wellFormed other
      (opened.keeps.openFile wf (fun _ _ => trivial) held.file)
  · by_cases same : x = e
    · exact .inr ⟨asked, locked, same ▸ first, same ▸ socket⟩
    · exact .inl (keeps.entryAt? opened.wellFormed (opened.keeps.entryAt? wf stands trivial) same)
  · exact keeps.within opened.wellFormed (opened.keeps.within wf leads)
  · obtain old | ⟨isFile, vacant, named⟩ := opened.made x (List.mem_filter.mp mem).1
    · exact .inl old
    · exact .inr ⟨isFile, vacant,
        named.imp_left fun shown => keeps.entryAt? opened.wellFormed shown (other x isFile)⟩
  · cases none.symm.trans first

end Receiver

namespace Transport

variable {path : String} {s : Sockets} {l : SocketLock}

/-- A lock that is given back leaves nothing but what was made of the files. -/
theorem unlock_of_lock (locked : (lock path s).value = .ok l) (fs : FileSystem) :
    unlock l { (lock path s).sockets with fs := fs } = { s with fs := fs } := by
  obtain ⟨fs', -, -, same⟩ := lock_eq_ok locked
  rw [same]
  simp [unlock]

end Transport

namespace Receiver

variable {r : Receiver} {told : Nat → Option Cancellation} {s s' : Sockets} {l : SocketLock}

theorem opened_of_lock (wf : s.fs.WellFormed) (locked : (Transport.lock r.path s).value = .ok l) :
    s.fs.Opened (Transport.lock r.path s).sockets.fs r.path := by
  obtain ⟨fs, opened, -, same⟩ := Transport.lock_eq_ok locked
  rw [same]
  exact FileSystem.opened_of_openFile wf opened

theorem leavesRest_of_lock_fails {e : IoError} (wf : s.fs.WellFormed)
    (refused : (Transport.lock r.path s).value = .error e) :
    r.LeavesRest s (Transport.lock r.path s).sockets := by
  cases opened : s.fs.openFile (lockPath r.path) with
  | error _ =>
    simp only [Transport.lock, opened]
    exact .refl r s
  | ok made =>
    obtain ⟨entry, fs⟩ := made
    by_cases held : entry ∈ s.locked
    · simp only [Transport.lock, opened, List.contains_eq_mem, held, decide_true, if_true]
      exact leavesRest_of_opened wf (FileSystem.opened_of_openFile wf opened)
    · rw [Transport.lock_of_free opened held] at refused
      cases refused

theorem leavesRest_of_unlock (wf : s.fs.WellFormed) (locked : (Transport.lock r.path s).value = .ok l) :
    r.LeavesRest s (Transport.unlock l (Transport.lock r.path s).sockets) := by
  have back := Transport.unlock_of_lock locked (Transport.lock r.path s).sockets.fs
  change Transport.unlock l (Transport.lock r.path s).sockets = _ at back
  rw [back]
  exact leavesRest_of_opened wf (opened_of_lock wf locked)

/-- A receiver that is cut off as it waits for its lock file leaves no more than the file. -/
theorem leavesBehind_of_locking (wf : s.fs.WellFormed) :
    r.LeavesBehind s (s.detach (.openFile (lockPath r.path))) := by
  refine .inr ⟨_, rfl, ?_⟩
  simp only [Sockets.carryOut, FileCall.apply, Sockets.detach]
  cases opened : s.fs.openFile (lockPath r.path) with
  | error e => exact (LeavesRest.refl r s).with_detached _
  | ok made => exact (leavesRest_of_opened wf (FileSystem.opened_of_openFile wf opened)).with_detached _

/-- A receiver that gets as far as its lock, and gets it. -/
structure GetsLock (r : Receiver) (told : Nat → Option Cancellation) (s : Sockets) (l : SocketLock) :
    Prop where
  valid : r.config.validate = .ok ()
  first : told 0 = none
  second : told 1 = none
  locked : (Transport.lock r.path s).value = .ok l

theorem GetsLock.checks (gets : r.GetsLock told s l) :
    r.checks told s = r.checksUnderLock told l (Transport.lock r.path s).sockets := by
  rw [Receiver.checks, gets.valid, gets.first, gets.second, gets.locked]
  rfl

/-- What is left by a receiver that has its lock may differ from what it found. -/
theorem GetsLock.touched (gets : r.GetsLock told s l) {p : Prop} :
    (∃ e, r.config.validate = .error e) ∨ (∃ cause, told 0 = some cause) → p := by
  simp [gets.valid, gets.first]

/-- A receiver that has its lock and finds a socket that it is to remove. -/
structure FindsSocket (r : Receiver) (told : Nat → Option Cancellation) (s : Sockets) (l : SocketLock) :
    Prop extends GetsLock r told s l where
  asked : r.config.reclaimStaleSocket = true
  third : told 2 = none
  found : Transport.hasSocket r.path (Transport.lock r.path s).sockets = true

/-- A receiver that has found a socket goes on with the checks of the removal. -/
theorem FindsSocket.checks (finds : r.FindsSocket told s l) :
    r.checks told s = r.checksRemoving told l (Transport.lock r.path s).sockets := by
  rw [finds.toGetsLock.checks, checksUnderLock, if_pos finds.asked, finds.third]
  exact if_pos finds.found

theorem FindsSocket.leavesRest (wf : s.fs.WellFormed) (finds : r.FindsSocket told s l) :
    r.LeavesRest s (Transport.unlock l (Transport.remove r.path (Transport.lock r.path s).sockets).2) := by
  obtain ⟨e, stood, socket⟩ := Transport.hasSocket_iff.mp finds.found
  rw [Transport.remove_of_socket stood socket, Transport.unlock_of_lock finds.locked]
  exact leavesRest_of_erased wf (opened_of_lock wf finds.locked) ⟨l, finds.locked⟩ finds.asked stood socket

/-- One that is cut off as it waits for a removal leaves no less than without the socket that it found. -/
theorem FindsSocket.leavesBehind (wf : s.fs.WellFormed) (finds : r.FindsSocket told s l) :
    r.LeavesBehind s
      ((Transport.unlock l (Transport.lock r.path s).sockets).detach (.unlink r.path)) := by
  obtain ⟨e, stood, socket⟩ := Transport.hasSocket_iff.mp finds.found
  have gone := FileSystem.unlink_of_entryAt? stood (by simp [socket])
  have leaves := finds.leavesRest wf
  rw [Transport.remove_of_socket stood socket] at leaves
  have added := congrArg (· ++ [FileCall.unlink r.path]) (Transport.lock_detached r.path s)
  refine .inr ⟨.unlink r.path, added, ?_⟩
  simp only [Sockets.carryOut, FileCall.apply, Sockets.detach, Transport.unlock, gone]
  exact leaves.with_detached _

/-- Where a receiver stands before it listens, with the checks that it has passed. -/
inductive Stage (r : Receiver) (told : Nat → Option Cancellation) (s : Sockets) :
    Nat → Phase → Sockets → Prop
  | fresh : Stage r told s 0 .starting s
  | started (valid : r.config.validate = .ok ()) (first : told 0 = none) : Stage r told s 1 .locking s
  | reclaiming {l : SocketLock} (gets : r.GetsLock told s l) (asked : r.config.reclaimStaleSocket = true) :
      Stage r told s 2 (.reclaiming l) (Transport.lock r.path s).sockets
  | removing {l : SocketLock} (finds : r.FindsSocket told s l) :
      Stage r told s 3 (.removing l) (Transport.lock r.path s).sockets
  | removed {l : SocketLock} (finds : r.FindsSocket told s l) (fourth : told 3 = none) :
      Stage r told s 4 (.removed l (Transport.remove r.path (Transport.lock r.path s).sockets).1)
        (Transport.remove r.path (Transport.lock r.path s).sockets).2
  | binding {polls : Nat} {l : SocketLock} {s' : Sockets}
      (rest : r.checks told s = (Transport.listen r.path l s').value.mapError (.bindFailed r.path))
      (begun : r.config.validate = .ok () ∧ told 0 = none)
      (leaves : r.LeavesRest s (Transport.unlock l s')) (settled : s'.detached = s.detached) :
      Stage r told s polls (.binding l) s'
  | refused {polls : Nat} {e : ExchangeError} {s' : Sockets} (fails : r.checks told s = .error e)
      (untouched : (∃ e, r.config.validate = .error e) ∨ (∃ cause, told 0 = some cause) → s' = s)
      (leaves : r.LeavesRest s s') (behind : r.LeavesBehind s s') :
      Stage r told s polls (.settled (.returned (.error e))) s'
  | listening {polls : Nat} {phase : Phase} {s' : Sockets} {li : SocketListener}
      (passes : r.checks told s = .ok li)
      (here : (∃ deadline, phase = .accepting li deadline) ∨ phase = .settled .overflowed) :
      Stage r told s polls phase s'

variable {grain now polls : Nat} {ts : Tokens} {o : Outcome Receiver}

theorem Stage.start (tells : r.context.ended? ts now = told 0)
    (moved : (r.goTo .starting).move grain ts now s = some o) :
    ∃ phase, o.value = r.goTo phase ∧ Stage r told s 1 phase o.sockets := by
  obtain rfl := Option.some.inj moved
  change ∃ phase, (r.start ts now s).value = r.goTo phase ∧ Stage r told s 1 phase (r.start ts now s).sockets
  unfold Receiver.start
  rw [tells]
  cases valid : r.config.validate with
  | error e =>
    have fails : r.checks told s = .error e := by rw [checks, valid]; rfl
    exact ⟨_, rfl, .refused fails (fun _ => rfl) (.refl r s) (.inl rfl)⟩
  | ok =>
    cases first : told 0 with
    | some cause =>
      have fails : r.checks told s = .error (.ofCancellation cause) := by rw [checks, valid, first]; rfl
      exact ⟨_, rfl, .refused fails (fun _ => rfl) (.refl r s) (.inl rfl)⟩
    | none => exact ⟨_, rfl, .started valid first⟩

theorem Stage.lock (wf : s.fs.WellFormed) (valid : r.config.validate = .ok ()) (first : told 0 = none)
    (tells : r.context.ended? ts now = told 1)
    (moved : (r.goTo .locking).move grain ts now s = some o) :
    ∃ phase, o.value = r.goTo phase ∧ Stage r told s 2 phase o.sockets := by
  obtain rfl := Option.some.inj moved
  change ∃ phase, (r.lock ts now s).value = r.goTo phase ∧ Stage r told s 2 phase (r.lock ts now s).sockets
  unfold Receiver.lock
  rw [Context.pollDone_eq_ended?, tells]
  have touched : ∀ {p : Prop}, (∃ e, r.config.validate = .error e) ∨ (∃ cause, told 0 = some cause) → p := by
    simp [valid, first]
  cases second : told 1 with
  | some cause =>
    have fails : r.checks told s = .error (.ofCancellation cause) := by
      rw [checks, valid, first, second]
      rfl
    exact ⟨_, rfl, .refused fails touched ((LeavesRest.refl r s).with_detached _)
      (leavesBehind_of_locking wf)⟩
  | none =>
    dsimp only
    cases locked : (Transport.lock r.path s).value with
    | error e =>
      have fails : r.checks told s = .error (.bindFailed r.path e) := by
        rw [checks, valid, first, second, locked]
        rfl
      exact ⟨_, rfl, .refused fails touched (leavesRest_of_lock_fails wf locked)
        (.inl (Transport.lock_detached _ _))⟩
    | ok l =>
      have gets : r.GetsLock told s l := ⟨valid, first, second, locked⟩
      by_cases asked : r.config.reclaimStaleSocket = true
      · simp only [asked, if_true]
        exact ⟨_, rfl, .reclaiming gets asked⟩
      · simp only [asked]
        refine ⟨_, rfl, .binding ?_ ⟨valid, first⟩ (leavesRest_of_unlock wf locked)
          (Transport.lock_detached _ _)⟩
        rw [gets.checks, checksUnderLock, if_neg asked]

theorem Stage.reclaim (wf : s.fs.WellFormed) (gets : r.GetsLock told s l)
    (asked : r.config.reclaimStaleSocket = true) (tells : r.context.ended? ts now = told 2)
    (moved : (r.goTo (.reclaiming l)).move grain ts now (Transport.lock r.path s).sockets = some o) :
    ∃ phase, o.value = r.goTo phase ∧ Stage r told s 3 phase o.sockets := by
  obtain rfl := Option.some.inj moved
  change ∃ phase, (r.reclaim l ts now (Transport.lock r.path s).sockets).value = r.goTo phase ∧
    Stage r told s 3 phase (r.reclaim l ts now (Transport.lock r.path s).sockets).sockets
  have under := gets.checks
  rw [checksUnderLock, if_pos asked] at under
  have leaves := leavesRest_of_unlock wf gets.locked
  have settled := Transport.lock_detached r.path s
  unfold Receiver.reclaim
  rw [Context.pollDone_eq_ended?, tells]
  cases third : told 2 with
  | some cause =>
    rw [third] at under
    exact ⟨_, rfl, .refused under gets.touched leaves (.inl settled)⟩
  | none =>
    rw [third] at under
    by_cases found : Transport.hasSocket r.path (Transport.lock r.path s).sockets = true
    · rw [if_pos found]
      exact ⟨_, rfl, .removing ⟨gets, asked, third, found⟩⟩
    · rw [if_neg found]
      have listens : r.checks told s = _ := under.trans (if_neg found)
      exact ⟨_, rfl, .binding listens ⟨gets.valid, gets.first⟩ leaves settled⟩

theorem Stage.remove (wf : s.fs.WellFormed) (finds : r.FindsSocket told s l)
    (tells : r.context.ended? ts now = told 3)
    (moved : (r.goTo (.removing l)).move grain ts now (Transport.lock r.path s).sockets = some o) :
    ∃ phase, o.value = r.goTo phase ∧ Stage r told s 4 phase o.sockets := by
  obtain rfl := Option.some.inj moved
  change ∃ phase, (r.remove l ts now (Transport.lock r.path s).sockets).value = r.goTo phase ∧
    Stage r told s 4 phase (r.remove l ts now (Transport.lock r.path s).sockets).sockets
  unfold Receiver.remove
  rw [Context.pollDone_eq_ended?, tells]
  cases fourth : told 3 with
  | some cause =>
    have fails : r.checks told s = .error (.ofCancellation cause) := by
      rw [finds.checks, checksRemoving, fourth]
      rfl
    have leaves := (leavesRest_of_unlock wf finds.locked).with_detached
    exact ⟨_, rfl, .refused fails finds.touched (leaves _) (finds.leavesBehind wf)⟩
  | none => exact ⟨_, rfl, .removed finds fourth⟩

theorem Stage.reclaimed (wf : s.fs.WellFormed) (finds : r.FindsSocket told s l)
    (fourth : told 3 = none) (tells : r.context.ended? ts now = told 4) {removal : Except IoError Unit}
    (answer : (Transport.remove r.path (Transport.lock r.path s).sockets).1 = removal)
    (left : (Transport.remove r.path (Transport.lock r.path s).sockets).2 = s')
    (moved : (r.goTo (.removed l removal)).move grain ts now s' = some o) :
    ∃ phase, o.value = r.goTo phase ∧ Stage r told s 5 phase o.sockets := by
  obtain rfl := Option.some.inj moved
  change ∃ phase, (r.reclaimed l removal ts now s').value = r.goTo phase ∧
    Stage r told s 5 phase (r.reclaimed l removal ts now s').sockets
  have leaves := finds.leavesRest wf
  have settled := (Transport.remove_detached r.path _).trans (Transport.lock_detached r.path s)
  have under := finds.checks
  simp only [checksRemoving, fourth, answer, left] at under leaves settled
  unfold Receiver.reclaimed
  rw [Context.pollDone_eq_ended?, tells]
  cases fifth : told 4 with
  | some cause =>
    rw [fifth] at under
    exact ⟨_, rfl, .refused under finds.touched leaves (.inl settled)⟩
  | none =>
    rw [fifth] at under
    dsimp only
    generalize Transport.afterRemoval r.path removal = reported at under ⊢
    obtain ⟨value, log⟩ := reported
    cases value with
    | error e => exact ⟨_, rfl, .refused under finds.touched leaves (.inl settled)⟩
    | ok => exact ⟨_, rfl, .binding under ⟨finds.valid, finds.first⟩ leaves settled⟩

/-- How a receiver binds depends on what it was called with alone. -/
theorem bind_goTo (r : Receiver) (phase : Phase) (l : SocketLock) (now : Nat) (s : Sockets) :
    (r.goTo phase).bind l now s = r.bind l now s := by
  have path : (r.goTo phase).path = r.path := rfl
  have config : (r.goTo phase).config = r.config := rfl
  unfold Receiver.bind
  rw [path, config]
  -- the two sides are compared outcome by outcome, and not by what the deadline evaluates to
  generalize Transport.listen r.path l s = o
  generalize (Instant.ofMillis now).add? r.config.timeout = deadline
  obtain ⟨value, s', log⟩ := o
  cases value with
  | error => simp only [refuse, finish, goTo]
  | ok => cases deadline <;> simp only [goTo]

theorem move_binding (r : Receiver) (l : SocketLock) (grain : Nat) (ts : Tokens) (now : Nat) (s : Sockets) :
    (r.goTo (.binding l)).move grain ts now s = some (r.bind l now s) :=
  congrArg some (r.bind_goTo (.binding l) l now s)

theorem Stage.bind (rest : r.checks told s = (Transport.listen r.path l s').value.mapError (.bindFailed r.path))
    (begun : r.config.validate = .ok () ∧ told 0 = none) (leaves : r.LeavesRest s (Transport.unlock l s'))
    (settled : s'.detached = s.detached)
    (moved : (r.goTo (.binding l)).move grain ts now s' = some o) :
    ∃ phase, o.value = r.goTo phase ∧ Stage r told s (polls + 1) phase o.sockets := by
  obtain rfl := Option.some.inj ((r.move_binding l grain ts now s').symm.trans moved)
  obtain ⟨e, unbound, binds⟩ | ⟨li, deadline, bound, -, binds⟩ | ⟨li, bound, -, binds⟩ :=
    r.bind_cases l now s' <;> rw [binds]
  · refine ⟨_, rfl, .refused (by rw [rest, unbound]; rfl) (fun early => ?_) ?_ (.inl ?_)⟩
    · simp [begun.1, begun.2] at early
    · change r.LeavesRest s (Transport.listen r.path l s').sockets
      rw [Transport.listen_eq_error unbound]
      exact leaves
    · exact (Transport.listen_detached _ _ _).trans settled
  · exact ⟨_, rfl, .listening (by rw [rest, bound]; rfl) (.inl ⟨deadline, rfl⟩)⟩
  · exact ⟨_, rfl, .listening (by rw [rest, bound]; rfl) (.inr rfl)⟩

/-- Every move before a receiver listens takes it from one stage to a later one. -/
theorem Stage.move {phase : Phase} (wf : s.fs.WellFormed) (stage : Stage r told s polls phase s')
    (early : phase.rank < 6) (tells : r.context.ended? ts now = told polls)
    (moved : (r.goTo phase).move grain ts now s' = some o) :
    ∃ phase, o.value = r.goTo phase ∧ Stage r told s (polls + 1) phase o.sockets := by
  cases stage with
  | fresh => exact Stage.start tells moved
  | started valid first => exact Stage.lock wf valid first tells moved
  | reclaiming gets asked => exact Stage.reclaim wf gets asked tells moved
  | removing finds => exact Stage.remove wf finds tells moved
  | removed finds fourth => exact Stage.reclaimed wf finds fourth tells rfl rfl moved
  | binding rest begun leaves settled => exact Stage.bind rest begun leaves settled moved
  | refused => simp [Phase.rank] at early
  | listening _ here => obtain ⟨deadline, rfl⟩ | rfl := here <;> simp [Phase.rank] at early

theorem stage_of_early {r' : Receiver} (fresh : r.phase = .starting) (wf : s.fs.WellFormed)
    (run : r.Early told s polls r' s') : ∃ phase, r' = r.goTo phase ∧ Stage r told s polls phase s' := by
  induction run with
  | fresh => exact ⟨r.phase, rfl, fresh ▸ .fresh⟩
  | move before early tells moved ih =>
    obtain ⟨phase, rfl, stage⟩ := ih
    exact stage.move wf early tells moved

theorem validate_eq_error {c : ReceiverConfig} {e : ExchangeError} (invalid : c.validate = .error e) :
    ∃ cause, e = .invalidConfig cause := by
  unfold ReceiverConfig.validate checkSocket at invalid
  obtain unnamed | ⟨-, -, hurried⟩ := Except.bind_eq_error_iff.mp invalid
  · split at unnamed <;> cases unnamed
    exact ⟨_, rfl⟩
  · split at hurried <;> cases hurried
    exact ⟨_, rfl⟩

/-- A check fails with a flaw of the configuration, with the end of the context, or with the path. -/
theorem checks_eq_error {e : ExchangeError} (fails : r.checks told s = .error e) :
    (∃ cause, e = .invalidConfig cause) ∨ (∃ cause, e = .ofCancellation cause) ∨
      ∃ cause, e = .bindFailed r.path cause := by
  have ended : ∀ {n}, goesOn (told n) = .error e → ∃ cause, e = .ofCancellation cause := by
    intro n stops
    cases tells : told n <;> rw [tells] at stops <;> cases stops
    exact ⟨_, rfl⟩
  have named : ∀ {α : Type} {x : Except IoError α}, x.mapError (.bindFailed r.path) = .error e →
      ∃ cause, e = .bindFailed r.path cause := by
    intro α x refused
    cases x <;> cases refused
    exact ⟨_, rfl⟩
  obtain invalid | ⟨-, -, fails⟩ := Except.bind_eq_error_iff.mp fails
  · exact .inl (validate_eq_error invalid)
  obtain stops | ⟨-, -, fails⟩ := Except.bind_eq_error_iff.mp fails
  · exact .inr (.inl (ended stops))
  obtain stops | ⟨-, -, fails⟩ := Except.bind_eq_error_iff.mp fails
  · exact .inr (.inl (ended stops))
  obtain refused | ⟨l, -, fails⟩ := Except.bind_eq_error_iff.mp fails
  · exact .inr (.inr (named refused))
  unfold checksUnderLock at fails
  split at fails
  next =>
    obtain stops | ⟨-, -, fails⟩ := Except.bind_eq_error_iff.mp fails
    · exact .inr (.inl (ended stops))
    split at fails
    next =>
      obtain stops | ⟨-, -, fails⟩ := Except.bind_eq_error_iff.mp fails
      · exact .inr (.inl (ended stops))
      obtain stops | ⟨-, -, fails⟩ := Except.bind_eq_error_iff.mp fails
      · exact .inr (.inl (ended stops))
      obtain refused | ⟨-, -, refused⟩ := Except.bind_eq_error_iff.mp fails
      · exact .inr (.inr (named refused))
      · exact .inr (.inr (named refused))
    next => exact .inr (.inr (named fails))
  next => exact .inr (.inr (named fails))

/-- Something stands at a path that is not to be reclaimed. -/
def Taken (fs : FileSystem) (path : String) : Prop :=
  (∃ e, fs.entryAt? path = some e ∧ e.node ≠ .socket) ∨
    ∃ directory, fs.resolve .named path = .ok (.within directory)

/-- Where something else than a socket stands, nothing is bound. -/
theorem bind_of_taken (taken : Taken s.fs r.path) (leaves : r.LeavesRest s (Transport.unlock l s'))
    (moved : (r.goTo (.binding l)).move grain ts now s' = some o) :
    ∃ cause, o.value.phase = .settled (.returned (.error (.bindFailed r.path cause))) := by
  have still : s'.fs.Occupied r.path := by
    obtain ⟨e, stands, other⟩ | ⟨directory, leads⟩ := taken
    · obtain stands | reclaimed := leaves.stands _ e stands
      · exact ⟨_, FileSystem.entryAt?_eq_some_iff.mp stands, by simp⟩
      · exact absurd reclaimed.socket other
    · exact ⟨_, leaves.within _ _ leads, by simp⟩
  obtain rfl := Option.some.inj ((r.move_binding l grain ts now s').symm.trans moved)
  have never : ∀ li, (Transport.listen r.path l s').value ≠ .ok li := fun li bound => by
    obtain ⟨fs, made, -⟩ := Transport.listen_eq_ok bound
    exact still.bindEntry_ne_ok _ made
  obtain ⟨e, -, binds⟩ | ⟨li, -, bound, -⟩ | ⟨li, bound, -, -⟩ := r.bind_cases l now s'
  · rw [binds]
    exact ⟨e, rfl⟩
  · exact absurd bound (never li)
  · exact absurd bound (never li)

/-- No phase before a receiver listens lasts. -/
theorem Turn.advances (turn : r.Turn s o) (early : r.phase.rank < 6) :
    r.phase.rank < o.value.phase.rank := by
  cases turn with
  | release phase _ =>
    obtain phase | ⟨_, phase⟩ | phase := phase <;> simp [goTo, phase, Phase.rank]
  | lock phase _ ahead => obtain rfl | rfl := ahead <;> simp [goTo, phase, Phase.rank]
  | look phase seen => obtain ⟨rfl, -⟩ | rfl := seen <;> simp [goTo, phase, Phase.rank]
  | quit phase | start phase | quitLocking phase | lockFails phase | quitRemoving phase | remove phase
  | reclaimed phase | bind phase | bindFails phase | overflow phase => simp [goTo, phase, Phase.rank]
  | giveUp phase | accept phase | hangUp phase | read phase | readFails phase | receive phase =>
    simp [phase, Phase.rank] at early

theorem exists_move (early : r.phase.rank < 6) (grain : Nat) (ts : Tokens) (now : Nat) (s : Sockets) :
    ∃ o, r.move grain ts now s = some o ∧ r.phase.rank < o.value.phase.rank := by
  obtain ⟨o, moves⟩ : ∃ o, r.move grain ts now s = some o := by
    unfold Receiver.move
    cases phase : r.phase with
    | starting | locking | reclaiming | removing | removed | binding => exact ⟨_, rfl⟩
    | accepting | reading | settled => simp [phase, Phase.rank] at early
  exact ⟨o, moves, (turn_of_does (.move grain moves)).advances early⟩

/-- A receiver that gets its lock and finds its path taken. -/
theorem early_of_unbound (ts : Tokens) (now : Nat) {s₁ s₂ : Sockets} {log : List LogEvent} {e : IoError}
    (fresh : r.phase = .starting) (valid : r.config.validate = .ok ())
    (unasked : r.config.reclaimStaleSocket = false) (live : r.context.ended? ts now = none)
    (locked : Transport.lock r.path s = ⟨.ok l, s₁, log⟩)
    (unbound : Transport.listen r.path l s₁ = ⟨.error e, s₂, []⟩) :
    r.Early (fun _ => none) s 3 (r.finish (.error (.bindFailed r.path e))) s₂ := by
  have first : r.move 0 ts now s = some ⟨r.goTo .locking, s, []⟩ := by
    simp only [Receiver.move, fresh, Receiver.start, valid, live]
  have second : (r.goTo .locking).move 0 ts now s = some ⟨r.goTo (.binding l), s₁, log⟩ := by
    change some (r.lock ts now s) = _
    simp only [Receiver.lock, Context.pollDone_eq_ended?, live, locked, unasked]
    rfl
  have third : (r.goTo (.binding l)).move 0 ts now s₁ =
      some ⟨r.finish (.error (.bindFailed r.path e)), s₂, []⟩ := by
    rw [move_binding]
    simp only [Receiver.bind, unbound, refuse]
  refine .move (.move (.move .fresh ?_ live first) ?_ live second) ?_ live third
  · simp [fresh, Phase.rank]
  · simp [goTo, Phase.rank]
  · simp [goTo, Phase.rank]

/-- A receiver that nobody disturbs goes from check to check and fails with the first that fails: of its
configuration, its context, its lock, the reclaiming and the binding of its path. If it fails before it
listens, it leaves the rest as it was, also when what it may have left under way takes effect, and
everything if its configuration is invalid or its context had ended before it was called. Where
something else than a socket stands at its path, it gets no further than to bind. -/
theorem refused_leaves_rest {r' : Receiver} (fresh : r.phase = .starting) (wf : s.fs.WellFormed)
    (run : r.Early told s polls r' s') :
    (r'.phase.rank < 6 → ∀ grain ts now,
      ∃ o, r'.move grain ts now s' = some o ∧ r'.phase.rank < o.value.phase.rank) ∧
    (6 ≤ r'.phase.rank → ∀ e, r.checks told s = .error e ↔ r'.phase = .settled (.returned (.error e))) ∧
    (∀ e, r'.phase = .settled (.returned (.error e)) →
      ((∃ cause, e = .invalidConfig cause) ∨ (∃ cause, e = .ofCancellation cause) ∨
        ∃ cause, e = .bindFailed r.path cause) ∧
      r.LeavesRest s s' ∧ r.LeavesBehind s s' ∧
      ((∃ e, r.config.validate = .error e) ∨ (∃ cause, told 0 = some cause) → s' = s)) ∧
    ∀ l grain ts now o, r'.phase = .binding l → r'.move grain ts now s' = some o → Taken s.fs r.path →
      ∃ cause, o.value.phase = .settled (.returned (.error (.bindFailed r.path cause))) := by
  obtain ⟨phase, rfl, stage⟩ := stage_of_early fresh wf run
  refine ⟨fun early grain ts now => exists_move early grain ts now s', fun past e => ?_, fun e failed => ?_,
    fun l grain ts now o binding moved taken => ?_⟩
  · cases stage with
    | fresh | started | reclaiming | removing | removed | binding => simp [goTo, Phase.rank] at past
    | refused fails =>
      rw [fails]
      simp [goTo]
    | listening passes here =>
      rw [passes]
      obtain ⟨deadline, rfl⟩ | rfl := here <;> simp [goTo]
  · obtain rfl : phase = .settled (.returned (.error e)) := failed
    cases stage with
    | refused fails untouched leaves behind => exact ⟨checks_eq_error fails, leaves, behind, untouched⟩
    | listening _ here => obtain ⟨_, other⟩ | other := here <;> cases other
  · obtain rfl : phase = .binding l := binding
    cases stage with
    | binding _ _ leaves _ => exact bind_of_taken taken leaves moved
    | listening _ here => obtain ⟨_, other⟩ | other := here <;> cases other

/-- A receiver at a path, with nothing in the world but one entry. -/
def alone : Receiver := ⟨.withSocket "s", .binary, .ofToken ⟨0, []⟩, .starting⟩

def world (name : String) (node : Node) : Sockets :=
  { Sockets.empty with fs := FileSystem.empty.create 0 name node }

theorem world_wellFormed (name : String) (node : Node) : (world name node).fs.WellFormed :=
  FileSystem.wellFormed_empty.create (by decide) name node

theorem refused_leaves_rest_beside_file :
    ∃ r' s', alone.phase = .starting ∧ (world "s" .file).fs.WellFormed ∧
      alone.Early (fun _ => none) (world "s" .file) 3 r' s' ∧
      r'.phase = .settled (.returned (.error (.bindFailed "s" .addressInUse))) ∧
      alone.LeavesRest (world "s" .file) s' ∧ s'.fs.entryAt? "s" = some ⟨1, 0, "s", .file⟩ := by
  have run : alone.Early (fun _ => none) (world "s" .file) 3
      (alone.finish (.error (.bindFailed "s" .addressInUse)))
      { world "s" .file with fs := (world "s" .file).fs.create 0 "s.lock" .file } :=
    early_of_unbound ⟨1, []⟩ 0 rfl rfl rfl rfl rfl rfl
  have wf := world_wellFormed "s" .file
  obtain ⟨-, -, refused, -⟩ := refused_leaves_rest rfl wf run
  obtain ⟨-, leaves, -⟩ := refused _ rfl
  exact ⟨_, _, rfl, wf, run, rfl, leaves, by decide⟩

/-- Where a link stands in place of the lock file that leads to the path, the file is made at the path. -/
theorem lock_file_made_at_path :
    ∃ r' s', alone.Early (fun _ => none) (world "s.lock" (.symlink "s")) 3 r' s' ∧
      r'.phase = .settled (.returned (.error (.bindFailed "s" .addressInUse))) ∧
      (world "s.lock" (.symlink "s")).fs.entryAt? alone.path = none ∧
      s'.fs.entryAt? alone.path = some ⟨2, 0, "s", .file⟩ := by
  have run : alone.Early (fun _ => none) (world "s.lock" (.symlink "s")) 3
      (alone.finish (.error (.bindFailed "s" .addressInUse)))
      { world "s.lock" (.symlink "s") with fs := (world "s.lock" (.symlink "s")).fs.create 0 "s" .file } :=
    early_of_unbound ⟨1, []⟩ 0 rfl rfl rfl rfl rfl rfl
  exact ⟨_, _, run, rfl, by decide, by decide⟩

end Receiver

end EvidenceExchange
