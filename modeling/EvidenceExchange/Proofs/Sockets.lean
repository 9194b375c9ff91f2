import EvidenceExchange.Transport
import Mathlib

namespace EvidenceExchange.Sockets

@[simp]
theorem modifyConnection_fs (s : Sockets) (id : Nat) (f : Connection → Connection) :
    (s.modifyConnection id f).fs = s.fs := rfl

@[simp]
theorem modifyConnection_locked (s : Sockets) (id : Nat) (f : Connection → Connection) :
    (s.modifyConnection id f).locked = s.locked := rfl

@[simp]
theorem close_fs (s : Sockets) (e : Endpoint) : (s.close e).fs = s.fs := rfl

@[simp]
theorem close_locked (s : Sockets) (e : Endpoint) : (s.close e).locked = s.locked := rfl

@[simp]
theorem shutdownWrite_fs (s : Sockets) (e : Endpoint) : (s.shutdownWrite e).fs = s.fs := rfl

@[simp]
theorem shutdownWrite_locked (s : Sockets) (e : Endpoint) :
    (s.shutdownWrite e).locked = s.locked := rfl

/-- Closing connections one after another keeps whatever closing one of them keeps. -/
theorem foldl_modifyConnection {α : Type} (view : Sockets → α) (f : Connection → Connection)
    (keeps : ∀ s id, view (modifyConnection s id f) = view s) (ids : List Nat) (s : Sockets) :
    view (ids.foldl (fun s id => s.modifyConnection id f) s) = view s := by
  induction ids generalizing s with
  | nil => rfl
  | cons id ids ih => rw [List.foldl_cons, ih, keeps]

@[simp]
theorem unlisten_fs (s : Sockets) (entry : Nat) : (s.unlisten entry).fs = s.fs :=
  foldl_modifyConnection Sockets.fs _ (fun _ _ => rfl) _ _

@[simp]
theorem unlisten_locked (s : Sockets) (entry : Nat) : (s.unlisten entry).locked = s.locked :=
  foldl_modifyConnection Sockets.locked _ (fun _ _ => rfl) _ _

@[simp]
theorem unlisten_detached (s : Sockets) (entry : Nat) : (s.unlisten entry).detached = s.detached :=
  foldl_modifyConnection Sockets.detached _ (fun _ _ => rfl) _ _

/-- Nothing is made, removed, locked or released, and nothing of the sort is left under way. -/
structure SameFiles (s s' : Sockets) : Prop where
  fs : s'.fs = s.fs
  locked : s'.locked = s.locked
  detached : s'.detached = s.detached

namespace SameFiles

theorem refl (s : Sockets) : SameFiles s s := ⟨rfl, rfl, rfl⟩

theorem trans {s s' s'' : Sockets} (h : SameFiles s s') (h' : SameFiles s' s'') :
    SameFiles s s'' :=
  ⟨h'.fs.trans h.fs, h'.locked.trans h.locked, h'.detached.trans h.detached⟩

theorem close {s s' : Sockets} (h : SameFiles s s') (e : Endpoint) : SameFiles s (s'.close e) :=
  ⟨h.fs, h.locked, h.detached⟩

end SameFiles

theorem sameFiles_connect (s : Sockets) (path : String) : SameFiles s (s.connect path).2 := by
  unfold connect
  split <;> exact ⟨rfl, rfl, rfl⟩

theorem sameFiles_accept {s s' : Sockets} {entry : Nat} {e : Endpoint}
    (h : s.accept entry = some (e, s')) : SameFiles s s' := by
  unfold accept at h
  split at h
  next =>
    cases h
    exact ⟨rfl, rfl, rfl⟩
  next => cases h

theorem sameFiles_write (s : Sockets) (e : Endpoint) (data : Bytes) (grain : Nat) :
    SameFiles s (s.write e data grain).2 := by
  unfold write
  split
  next => exact .refl s
  next =>
    dsimp only
    split
    next => exact .refl s
    next =>
      split
      next => exact .refl s
      next => split <;> exact ⟨rfl, rfl, rfl⟩

theorem sameFiles_read (s : Sockets) (e : Endpoint) (grain : Nat) :
    SameFiles s (s.read e grain).2 := by
  unfold read
  split
  next => exact .refl s
  next =>
    dsimp only
    split
    next => exact ⟨rfl, rfl, rfl⟩
    next =>
      split
      next => exact .refl s
      next =>
        split
        next => exact ⟨rfl, rfl, rfl⟩
        next => split <;> exact .refl s

theorem read_detached {s s' : Sockets} {e : Endpoint} {grain : Nat} {outcome : ReadOutcome}
    (took : s.read e grain = (outcome, s')) : s'.detached = s.detached := by
  have same := s.sameFiles_read e grain
  rw [took] at same
  exact same.detached

theorem connect_refused {s s' : Sockets} {path : String} {e : IoError}
    (h : s.connect path = (.error e, s')) : s' = s := by
  unfold connect at h
  split at h
  next =>
    cases h
    rfl
  next => cases h

theorem write_broken {s s' : Sockets} {e : Endpoint} {data : Bytes} {grain : Nat}
    (h : s.write e data grain = (.broken, s')) : s' = s := by
  unfold write at h
  split at h
  next =>
    cases h
    rfl
  next =>
    dsimp only at h
    split at h
    next => cases h
    next =>
      split at h
      next =>
        cases h
        rfl
      next => split at h <;> cases h

theorem read_blocked {s s' : Sockets} {e : Endpoint} {grain : Nat}
    (h : s.read e grain = (.blocked, s')) : s' = s := by
  unfold read at h
  split at h
  next => cases h
  next =>
    dsimp only at h
    split at h
    next => cases h
    next =>
      split at h
      next =>
        cases h
        rfl
      next =>
        split at h
        next => cases h
        next =>
          split at h
          next => cases h
          next =>
            cases h
            rfl

end EvidenceExchange.Sockets
