import EvidenceExchange.Proofs.Upkeep

namespace EvidenceExchange

open FileSystem (Spot)
open Transport (lockPath)

namespace Receiver

/-- A receiver of a path that holds nothing, or the lock of the file that is there. -/
def Entitled (r : Receiver) (path : String) (s : Sockets) : Prop :=
  r.path = path ∧ ∀ l, r.lock? = some l → s.fs.openFile (lockPath path) = .ok (l.entry, s.fs)

/-- A receiver that does not hold the lock of a certain file. -/
def Lacks (r : Receiver) (file : Nat) : Prop := ∀ l, r.lock? = some l → l.entry ≠ file

theorem lacks_of_idle {r : Receiver} (idle : r.lock? = none) (file : Nat) : r.Lacks file :=
  fun _ held => by cases idle.symm.trans held

theorem Entitled.idle {r : Receiver} {path : String} {s : Sockets} {file : Nat}
    (entitled : r.Entitled path s) (lacks : r.Lacks file)
    (there : s.fs.openFile (lockPath path) = .ok (file, s.fs)) : r.hold? = none := by
  rw [hold?_eq_none_iff]
  refine Option.eq_none_iff_forall_ne_some.mpr fun l held => lacks l held ?_
  have same := (entitled.2 l held).symm.trans there
  exact (Prod.mk.inj (Except.ok.inj same)).1

/-- Who holds a lock takes no other one. -/
theorem Turn.lacks {r : Receiver} {s : Sockets} {o : Outcome Receiver} {file : Nat}
    (h : r.Turn s o) (lacks : r.Lacks file) (holds : r.lock? ≠ none) : o.value.Lacks file := by
  obtain ⟨same, -⟩ | ⟨l, nothing, -⟩ | ⟨l, -, nothing, -⟩ := h.locked
  · exact fun l held => lacks l (same ▸ held)
  · exact absurd nothing holds
  · exact lacks_of_idle nothing file

end Receiver

namespace Exchange

/-- Nobody but the receivers of a path touches anything there, nor does one of them that has locked a
file which is not there any more. The lock file may also be opened for a receive that has been cut off. -/
def Private (path : String) (mover : Option Nat) (x y : Exchange) : Prop :=
  (∀ k r, mover = some k → x.HasReceiver k r → ¬r.Entitled path x.sockets) →
    x.sockets.Untouched path y.sockets ∨
      y.sockets = x.sockets.carryOut (.openFile (lockPath path))

/-- No receiver of a path holds anything. -/
def Idle (path : String) (x : Exchange) : Prop :=
  ∀ {k r}, x.HasReceiver k r → r.path = path → r.lock? = none

/-- At most one receiver of a path has the lock of the file there, and the path is kept as it should
be for what this one holds. -/
inductive Tended (path : String) (p : Spot) (file : Nat) (x : Exchange) : Prop
  | free (kept : x.sockets.Kept path p file none)
      (others : ∀ {k r}, x.HasReceiver k r → r.path = path → r.Lacks file) : Tended path p file x
  | held {k r h} (kept : x.sockets.Kept path p file (some h)) (here : x.HasReceiver k r)
      (mine : r.path = path) (holds : r.hold? = some h)
      (others : ∀ {k' r'}, k' ≠ k → x.HasReceiver k' r' → r'.path = path → r'.Lacks file) :
      Tended path p file x

variable {path : String} {p : Spot} {file : Nat}

theorem SoleHolders.lacks {x : Exchange} (sole : x.SoleHolders) {k k' : Nat} {r r' : Receiver}
    {l : SocketLock} (hk : x.HasReceiver k r) (holds : r.lock? = some l) (ne : k' ≠ k)
    (hk' : x.HasReceiver k' r') : r'.Lacks l.entry :=
  fun _ held => sole.apart hk' hk ne held holds

/-- Who is bound under the lock of the file that is there has the path as it should be. -/
theorem SoleHolders.kept_of_listen {x : Exchange} (sole : x.SoleHolders)
    (wf : x.sockets.fs.WellFormed) (named : path ≠ "") {k : Nat} {r : Receiver} {l : SocketLock}
    {li : SocketListener} (hk : x.HasReceiver k r) (entitled : r.Entitled path x.sockets)
    (holds : r.lock? = some l) (bound : (Transport.listen path l x.sockets).value = .ok li) :
    ∃ p, (Transport.listen path l x.sockets).sockets.Kept path p l.entry (some (.listener li)) := by
  have once := sole.once hk holds
  have locks : x.sockets.Locks path l.entry :=
    ⟨List.count_pos_iff.mp (once ▸ Nat.one_pos), entitled.2 l holds⟩
  obtain ⟨p, -, kept⟩ := Sockets.Kept.of_listen wf named locks once bound
  exact ⟨p, kept⟩

theorem Tended.wellFormed {x : Exchange} (tended : x.Tended path p file) :
    x.sockets.fs.WellFormed := by
  cases tended with
  | free kept => exact kept.site.wellFormed
  | held kept => exact kept.site.wellFormed

theorem Tended.lockFile {x : Exchange} (tended : x.Tended path p file) :
    x.sockets.fs.openFile (lockPath path) = .ok (file, x.sockets.fs) := by
  cases tended with
  | free kept => exact kept.lockFile
  | held kept => exact kept.lockFile

theorem Tended.of_receiver {x : Exchange} {k : Nat} {r : Receiver} (hk : x.HasReceiver k r)
    (mine : r.path = path) (kept : x.sockets.Kept path p file r.hold?)
    (others : ∀ {k' r'}, k' ≠ k → x.HasReceiver k' r' → r'.path = path → r'.Lacks file) :
    x.Tended path p file := by
  cases holds : r.hold? with
  | none =>
    refine .free (holds ▸ kept) fun {k' r'} hk' path' => ?_
    by_cases same : k' = k
    · subst same
      obtain rfl := hk'.unique hk
      exact Receiver.lacks_of_idle (Receiver.hold?_eq_none_iff.mp holds) file
    · exact others same hk' path'
  | some h => exact .held (holds ▸ kept) hk mine holds others

/-- Whoever has the lock of the file there is the one that the path is kept for. -/
theorem Tended.holder {x : Exchange} (tended : x.Tended path p file) {k : Nat} {r : Receiver}
    {h : Hold} (hk : x.HasReceiver k r) (mine : r.path = path) (holds : r.hold? = some h)
    (own : h.socketLock.entry = file) : x.sockets.Kept path p file (some h) := by
  have mine' : ¬r.Lacks file := fun lacks =>
    lacks h.socketLock (Receiver.lock?_of_hold? holds) own
  cases tended with
  | free _ others => exact absurd (others hk mine) mine'
  | @held k' r' h' kept here _ holds' others =>
    by_cases same : k = k'
    · subst same
      obtain rfl := hk.unique here
      obtain rfl := Option.some.inj (holds.symm.trans holds')
      exact kept
    · exact absurd (others same hk mine) mine'

theorem Tended.step_turn {k : Nat} {a b : Nat × Exchange} {r : Receiver}
    (tended : a.2.Tended path p file) (h : Step (some k) a b) (hk : a.2.HasReceiver k r)
    (entitled : r.Entitled path a.2.sockets) : b.2.Tended path p file := by
  obtain ⟨o, turn, hsockets, hk'⟩ := h.turn hk
  have mine := entitled.1
  have mine' : o.value.path = path := turn.path_eq.trans mine
  have change := mine ▸ turn.change
  have before : ∀ {k' r'}, k' ≠ k → b.2.HasReceiver k' r' → a.2.HasReceiver k' r' :=
    fun ne hr' => h.receiver_before_other ne hr'
  have idle : r.Lacks file → r.hold? = none := fun lacks => entitled.idle lacks tended.lockFile
  cases tended with
  | free kept others =>
    have kept' := change.kept (idle (others hk mine) ▸ kept)
    exact .of_receiver hk' mine' (hsockets ▸ kept') fun ne hr' => others (before ne hr')
  | @held k₀ r₀ held kept here mine₀ holds others =>
    by_cases same : k = k₀
    · subst same
      obtain rfl := hk.unique here
      have kept' := change.kept (holds ▸ kept)
      exact .of_receiver hk' mine' (hsockets ▸ kept') fun ne hr' => others ne (before ne hr')
    · rw [idle (others same hk mine)] at change
      obtain ⟨fs, locked, nothing⟩ := change.shut_out kept.locks
      obtain ⟨-, here'⟩ | ⟨hmover, -⟩ := h.receiver here
      · refine .held (hsockets ▸ kept.of_eq fs locked) here' mine₀ holds
          fun {k' r'} ne hr' path' => ?_
        by_cases mover : k' = k
        · subst mover
          obtain rfl := hr'.unique hk'
          exact Receiver.lacks_of_idle (Receiver.hold?_eq_none_iff.mp nothing) file
        · exact others ne (before mover hr') path'
      · exact absurd (Option.some.inj hmover) same

theorem Tended.step_untouched {mover : Option Nat} {a b : Nat × Exchange}
    (tended : a.2.Tended path p file) (h : Step mover a b)
    (other : ∀ k r, mover = some k → a.2.HasReceiver k r → ¬r.Entitled path a.2.sockets)
    (same : a.2.sockets.Untouched path b.2.sockets) : b.2.Tended path p file := by
  have onward := h.onward tended.wellFormed
  have lacks : ∀ {k r}, (∀ {r'}, a.2.HasReceiver k r' → r'.path = path → r'.Lacks file) →
      b.2.HasReceiver k r → r.path = path → r.Lacks file := by
    intro k r before hk mine
    obtain hk | ⟨hmover, r', o, hk', turn, rfl⟩ := h.receiver_before hk
    · exact before hk mine
    · have mine' := turn.path_eq.symm.trans mine
      refine turn.lacks (before hk' mine') fun idle => ?_
      exact other k r' hmover hk' ⟨mine', fun l held => by cases idle.symm.trans held⟩
  cases tended with
  | free kept others =>
    exact .free (kept.untouched onward same) fun hk mine => lacks others hk mine
  | @held k r held kept here mine holds others =>
    obtain ⟨-, here'⟩ | ⟨hmover, -⟩ := h.receiver here
    · exact .held (kept.untouched onward same) here' mine holds
        fun ne hk mine => lacks (others ne) hk mine
    · refine absurd ⟨mine, fun l hl => ?_⟩ (other k r hmover here)
      obtain rfl := Option.some.inj (hl.symm.trans (Receiver.lock?_of_hold? holds))
      exact kept.locks.file

theorem Tended.step {mover : Option Nat} {a b : Nat × Exchange} (tended : a.2.Tended path p file)
    (h : Step mover a b) (alone : Private path mover a.2 b.2) : b.2.Tended path p file := by
  by_cases mine : ∃ k r, mover = some k ∧ a.2.HasReceiver k r ∧ r.Entitled path a.2.sockets
  · obtain ⟨k, r, rfl, hk, entitled⟩ := mine
    exact tended.step_turn h hk entitled
  · have other : ∀ k r, mover = some k → a.2.HasReceiver k r → ¬r.Entitled path a.2.sockets :=
      fun k r hmover hk entitled => mine ⟨k, r, hmover, hk, entitled⟩
    obtain same | opened := alone other
    · exact tended.step_untouched h other same
    · refine tended.step_untouched h other (.of_eq ?_ (opened ▸ rfl))
      rw [opened]
      cases tended with
      | free kept => exact kept.carryOut_fs
      | held kept => exact kept.carryOut_fs

theorem Tended.run {a b : Nat × Exchange} (tended : a.2.Tended path p file)
    (run : Run (Private path) a b) : b.2.Tended path p file := by
  induction run with
  | refl => exact tended
  | tail _ h ih =>
    obtain ⟨mover, step, alone⟩ := h
    exact ih.step step alone

/-- A path that could be bound, and that nobody has locked since or that is tended. -/
inductive Reserved (path : String) (p : Spot) (x : Exchange) : Prop
  | untaken (h : x.sockets.Untaken path p) (idle : x.Idle path) : Reserved path p x
  | tended {file : Nat} (h : x.Tended path p file) : Reserved path p x

theorem reserved_of_ready {x : Exchange} (ready : x.sockets.Ready path p) (idle : x.Idle path) :
    x.Reserved path p := by
  cases ready with
  | untaken untaken => exact .untaken untaken idle
  | kept kept =>
    exact .tended (.free kept fun hk mine => Receiver.lacks_of_idle (idle hk mine) _)

theorem Reserved.ready {x : Exchange} (reserved : x.Reserved path p) (idle : x.Idle path) :
    x.sockets.Ready path p := by
  cases reserved with
  | untaken untaken => exact .untaken untaken
  | tended tended =>
    cases tended with
    | free kept => exact .kept kept
    | held _ here mine holds =>
      cases holds.symm.trans (Receiver.hold?_eq_none_iff.mpr (idle here mine))

theorem Reserved.step {mover : Option Nat} {a b : Nat × Exchange} (reserved : a.2.Reserved path p)
    (h : Step mover a b) (alone : Private path mover a.2 b.2) : b.2.Reserved path p := by
  cases reserved with
  | tended tended => exact .tended (tended.step h alone)
  | untaken untaken idle =>
    by_cases mine : ∃ k r, mover = some k ∧ a.2.HasReceiver k r ∧ r.path = path
    · obtain ⟨k, r, rfl, hk, mine⟩ := mine
      obtain ⟨o, turn, hsockets, hk'⟩ := h.turn hk
      have change := mine ▸ turn.change
      have others : ∀ {k' r'}, k' ≠ k → b.2.HasReceiver k' r' → r'.path = path → r'.lock? = none :=
        fun ne hr' => idle (h.receiver_before_other ne hr')
      rw [Receiver.hold?_eq_none_iff.mpr (idle hk mine)] at change
      obtain ⟨untaken', nothing⟩ | ⟨file, kept⟩ := change.untaken untaken
      · refine .untaken (hsockets ▸ untaken') fun {k' r'} hr' path' => ?_
        by_cases same : k' = k
        · subst same
          obtain rfl := hr'.unique hk'
          exact Receiver.hold?_eq_none_iff.mp nothing
        · exact others same hr' path'
      · exact .tended (.of_receiver hk' (turn.path_eq.trans mine) (hsockets ▸ kept)
          fun ne hr' path' => Receiver.lacks_of_idle (others ne hr' path') file)
    · have idle' : b.2.Idle path := by
        intro k r hk path'
        obtain hk | ⟨hmover, r', o, hk', turn, rfl⟩ := h.receiver_before hk
        · exact idle hk path'
        · exact absurd ⟨k, r', hmover, hk', turn.path_eq.symm.trans path'⟩ mine
      obtain same | opened := alone fun k r hmover hk entitled => mine ⟨k, r, hmover, hk, entitled.1⟩
      · exact .untaken (untaken.untouched (h.onward untaken.site.wellFormed) same) idle'
      · exact .tended (.free (opened ▸ untaken.carryOut)
          fun hk path' => Receiver.lacks_of_idle (idle' hk path') _)

theorem Reserved.run {a b : Nat × Exchange} (reserved : a.2.Reserved path p)
    (run : Run (Private path) a b) : b.2.Reserved path p := by
  induction run with
  | refl => exact reserved
  | tail _ h ih =>
    obtain ⟨mover, step, alone⟩ := h
    exact ih.step step alone

end Exchange

end EvidenceExchange
