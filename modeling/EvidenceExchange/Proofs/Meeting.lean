import EvidenceExchange.Proofs.FileSystem.Steps
import EvidenceExchange.Proofs.Traffic

namespace EvidenceExchange

namespace Transport

variable {path : String} {l : SocketLock} {s : Sockets}

theorem still_lock (path : String) (s : Sockets) : s.Still (lock path s).sockets := by
  unfold lock
  split
  next => exact .refl s
  next opened =>
    have onward := FileSystem.Onward.openFile opened
    split <;> exact ⟨rfl, List.Sublist.refl _, onward.fresh_le⟩

theorem lock_listening (path : String) (s : Sockets) : (lock path s).sockets.listening = s.listening := by
  unfold lock
  split
  next => rfl
  next => split <;> rfl

theorem remove_listening (path : String) (s : Sockets) : (remove path s).2.listening = s.listening := by
  unfold remove
  split <;> rfl

theorem still_unlock (l : SocketLock) (s : Sockets) : s.Still (unlock l s) :=
  ⟨rfl, List.Sublist.refl _, le_rfl⟩

theorem still_detach (s : Sockets) (call : FileCall) : s.Still (s.detach call) :=
  ⟨rfl, List.Sublist.refl _, le_rfl⟩

theorem still_remove (path : String) (s : Sockets) : s.Still (remove path s).2 := by
  unfold remove
  split
  next removed => exact ⟨rfl, List.Sublist.refl _, (FileSystem.Onward.unlink removed).fresh_le⟩
  next => exact .refl s

theorem still_closeListener (li : SocketListener) (s : Sockets) :
    s.Still (closeListener li s).sockets := by
  unfold closeListener
  have closed : ∀ fs, s.fs.fresh ≤ fs.fresh →
      s.Still (unlock li.lock ({ s with fs := fs }.unlisten li.entry)) := by
    intro fs le
    have first : s.Still { s with fs := fs } := ⟨rfl, List.Sublist.refl _, le⟩
    exact (first.trans (Sockets.still_unlisten _ _)).trans (still_unlock _ _)
  cases removed : s.fs.unlink li.path with
  | ok fs => exact closed fs (FileSystem.Onward.unlink removed).fresh_le
  | error e => exact closed s.fs le_rfl

end Transport

namespace Sockets

theorem still_carryOut (s : Sockets) (call : FileCall) : s.Still (s.carryOut call) :=
  ⟨rfl, List.Sublist.refl _, (FileSystem.Onward.call s.fs call).fresh_le⟩

variable {s s' : Sockets} {h : History}

theorem bind_traffic (sound : s.Sound h) {path : String} {result : Except IoError Nat}
    (bound : s.bind path = (result, s')) (i : Nat) : Traffic i s h s' h := by
  cases made : bindEntry s.fs path with
  | error e =>
    simp only [bind, made] at bound
    cases bound
    exact sound.still (.refl s) i
  | ok b =>
    obtain ⟨entry, fs⟩ := b
    obtain ⟨-, rfl, fresh⟩ := FileSystem.Onward.bindEntry made
    simp only [bind, made] at bound
    cases bound
    refine sound.listens ?_ ?_ fresh i <;> rfl

theorem Sound.listen_traffic (sound : s.Sound h) (path : String) (l : SocketLock) (i : Nat) :
    Traffic i s h (Transport.listen path l s).sockets h := by
  obtain ⟨⟨result, s'⟩, bound⟩ : ∃ b, s.bind path = b := ⟨_, rfl⟩
  have traffic := bind_traffic sound bound i
  unfold Transport.listen
  rw [bound]
  cases result with
  | error e => exact traffic.trans (traffic.sound.still (Transport.still_unlock l s') i)
  | ok entry => exact traffic

end Sockets

end EvidenceExchange
