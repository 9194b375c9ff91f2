import EvidenceExchange.Proofs.Meeting
import EvidenceExchange.Proofs.Recording

namespace EvidenceExchange.Peer

/-- The ends of connections that a peer uses are its own. -/
structure Holds (p : Peer) (k : Nat) (h : History) : Prop where
  stream : ∀ e, p.stream = some e → h.Gave k e
  activity : match p.activity with
    | .writing e _ | .reading e _ _ => h.Gave k e
    | _ => True

variable {p : Peer} {k : Nat} {s s' : Sockets} {h h' : History}

theorem Holds.mono (holds : p.Holds k h) (gave : ∀ {e}, h.Gave k e → h'.Gave k e) :
    p.Holds k h' where
  stream e g := gave (holds.stream e g)
  activity := by
    have old := holds.activity
    split at old
    next => exact gave old
    next => exact gave old
    next => trivial

theorem Holds.answer (holds : p.Holds k h) (now : Nat) (a : PeerAnswer) :
    (p.answer now a).Holds k h :=
  ⟨holds.stream, trivial⟩

theorem holds_of_stream {e : Endpoint} (gave : h.Gave k e) (now : Nat) (a : PeerAnswer) :
    ({ p with stream := some e }.answer now a).Holds k h :=
  ⟨fun _ g => Option.some.inj g ▸ gave, trivial⟩

theorem still_dropStream (p : Peer) (s : Sockets) : s.Still (p.dropStream s) := by
  unfold dropStream
  split
  next e _ => exact s.still_close e
  next => exact .refl s

theorem still_breakStream (p : Peer) (s : Sockets) : s.Still (p.breakStream s) := by
  unfold breakStream
  split
  next e _ => exact s.still_breakDown e
  next => exact .refl s

theorem still_dropListener (p : Peer) (s : Sockets) : s.Still (p.dropListener s) := by
  unfold dropListener
  split
  next entry _ => exact s.still_unlisten entry
  next => exact .refl s

/-- A move of a peer that leaves it with none but its own streams. -/
def Follows (p : Peer) (k : Nat) (s : Sockets) (h : History) (m : PeerMove) : Prop :=
  ∃ h', h.Becomes k p.stream m.peer.stream h' ∧ Traffic k s h m.sockets h' ∧ m.peer.Holds k h'

theorem follows_of_kept {m : PeerMove} (traffic : Traffic k s h m.sockets h)
    (kept : m.peer.stream = p.stream) (holds : m.peer.Holds k h) : p.Follows k s h m :=
  ⟨h, .same fun _ _ => kept, traffic, holds⟩

theorem begin_follows (sound : s.Sound h) (holds : p.Holds k h) (now : Nat) (a : PeerAction) :
    p.Follows k s h (p.begin now s a) := by
  have answered b := holds.answer now b
  cases a with
  | file step =>
    have onward := FileSystem.Onward.apply s.fs step
    have still : s.Still (s.applyFileStep step).2 := ⟨rfl, List.Sublist.refl _, onward.fresh_le⟩
    exact follows_of_kept (sound.still still k) rfl (answered _)
  | probe => exact follows_of_kept (sound.still (.refl s) k) rfl (answered _)
  | connect path =>
    simp only [begin]
    split
    next e s' connected =>
      obtain ⟨rfl, -, traffic⟩ := sound.connects k connected
      refine ⟨_, .opened (by simp [answer]),
        traffic.trans (traffic.sound.still (p.still_dropStream s') k), holds_of_stream ?_ now .done⟩
      exact History.gave_opens.mpr (.inr ⟨by rw [sound.openers], rfl⟩)
    next e s' refused =>
      obtain rfl := Sockets.connect_refused refused
      exact follows_of_kept (sound.still (.refl _) k) rfl (answered _)
  | listen path =>
    simp only [begin]
    split
    next entry s' bound =>
      have traffic := Sockets.bind_traffic sound bound k
      exact follows_of_kept (traffic.trans (traffic.sound.still (p.still_dropListener s') k)) rfl
        ⟨holds.stream, trivial⟩
    next e s' bound => exact follows_of_kept (Sockets.bind_traffic sound bound k) rfl (answered _)
  | accept limit =>
    simp only [begin]
    split
    next => exact follows_of_kept (sound.still (.refl s) k) rfl ⟨holds.stream, trivial⟩
    next => exact follows_of_kept (sound.still (.refl s) k) rfl (answered _)
  | write data | readToEnd limit =>
    simp only [begin]
    split
    next e g =>
      exact follows_of_kept (sound.still (.refl s) k) rfl ⟨holds.stream, holds.stream e g⟩
    next => exact follows_of_kept (sound.still (.refl s) k) rfl (answered _)
  | shutdown =>
    simp only [begin]
    split
    next e _ => exact follows_of_kept (sound.still (s.still_shutdownWrite e) k) rfl (answered _)
    next => exact follows_of_kept (sound.still (.refl s) k) rfl (answered _)
  | close =>
    exact ⟨h, .same (by simp [begin, moved, answer]), sound.still (p.still_dropStream s) k,
      by simp [begin, moved, answer], trivial⟩
  | unlisten =>
    exact follows_of_kept (sound.still (p.still_dropListener s) k) rfl ⟨holds.stream, trivial⟩
  | cancelAll => exact follows_of_kept (sound.still (.refl s) k) rfl (answered _)
  | breakDown =>
    exact ⟨h, .same (by simp [begin, moved, answer]), sound.still (p.still_breakStream s) k,
      by simp [begin, moved, answer], trivial⟩
  | failAccepts cause =>
    have still : s.Still { s with acceptFault := cause } := ⟨rfl, List.Sublist.refl _, le_rfl⟩
    exact follows_of_kept (sound.still still k) rfl (answered _)

theorem move_follows {grain now : Nat} {m : PeerMove} (sound : s.Sound h) (holds : p.Holds k h)
    (move : p.move grain now s = some m) : p.Follows k s h m := by
  have answered b := holds.answer now b
  unfold Peer.move at move
  split at move
  next =>
    split at move
    next =>
      split at move
      next => cases move
      next =>
        cases move
        have left := (p.still_dropStream s).trans (p.still_dropListener _)
        exact ⟨h, .same (by simp [leave, moved]), sound.still left k, by simp [leave, moved],
          holds.activity⟩
    next step further _ =>
      split at move
      next =>
        cases move
        exact begin_follows sound holds now step.action
      next => cases move
  next entry giveUpAt _ =>
    split at move
    next e s' accepted =>
      cases move
      obtain ⟨c, side⟩ := e
      obtain ⟨rfl, unknown, -, traffic⟩ := sound.accepts k accepted
      refine ⟨_, .accepted (c := c) rfl fun same => ?_,
        traffic.trans (traffic.sound.still (p.still_dropStream s') k), holds_of_stream ?_ now .done⟩
      · exact unknown k (holds.stream _ same.symm)
      · exact History.gave_accepts.mpr (.inr ⟨rfl, rfl⟩)
    next =>
      split at move
      next =>
        cases move
        exact follows_of_kept (sound.still (.refl s) k) rfl (answered _)
      next => cases move
  next e rest activity =>
    have gave : h.Gave k e := by simpa only [activity] using holds.activity
    split at move
    next count s' wrote =>
      have traffic := sound.writes gave wrote
      split at move <;> cases move
      · exact follows_of_kept traffic rfl (answered _)
      · exact follows_of_kept traffic rfl ⟨holds.stream, gave⟩
    next s' broken =>
      cases move
      obtain rfl := Sockets.write_broken broken
      exact follows_of_kept (sound.still (.refl _) k) rfl (answered _)
    next => cases move
  next e earlier giveUpAt activity =>
    have gave : h.Gave k e := by simpa only [activity] using holds.activity
    split at move
    next bytes s' took =>
      cases move
      exact follows_of_kept (sound.reads gave took) rfl ⟨holds.stream, gave⟩
    next s' took =>
      cases move
      exact follows_of_kept (sound.reads gave took) rfl (answered _)
    next cause s' took =>
      cases move
      exact follows_of_kept (sound.reads gave took) rfl (answered _)
    next s' took =>
      split at move
      next =>
        cases move
        exact follows_of_kept (sound.reads gave took) rfl (answered _)
      next => cases move

end EvidenceExchange.Peer
