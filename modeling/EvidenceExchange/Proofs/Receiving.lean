import EvidenceExchange.Proofs.Meeting
import EvidenceExchange.Proofs.Moves.Receiver
import EvidenceExchange.Proofs.Recording
import EvidenceExchange.Proofs.WireImage

namespace EvidenceExchange

open Evidence

namespace Receiver

/-- How a call stands to its log, to the wires and to the history. -/
def Consistent (r : Receiver) (k : Nat) (log : List LogEvent) (s : Sockets) (h : History) : Prop :=
  match r.phase with
  | .reading stream _ reader =>
    deliveries log = [] ∧
      ∃ c, stream = ⟨c, .server⟩ ∧ h.AcceptedOnly k c ∧ reader.Holds Frame.maxPayload (s.wire c).seen
  | .settled (.returned (.ok bundle)) =>
    ∃ payload c, bundle.encode = .ok payload ∧ h.AcceptedOnly k c ∧
      Frame.verdict Frame.maxPayload (s.wire c).carried = .ok payload ∧
      deliveries log = [⟨bundle.length, payload.length, Digest.short payload⟩]
  | .settled _ => True
  | _ => h.AcceptedNone k ∧ deliveries log = []

variable {r : Receiver} {k : Nat} {log : List LogEvent} {s s' : Sockets} {h h' : History}

theorem consistent_of_fails {result : CallResult Bundle} (fails : result.Fails) :
    (r.goTo (.settled result)).Consistent k log s h := by
  unfold Consistent
  split
  next phase => cases phase
  next phase => exact absurd (Phase.settled.inj phase) (fails _)
  next => trivial
  next settled => exact absurd rfl (settled result)

theorem consistent_iff_of_early (early : r.phase.rank < 7) :
    r.Consistent k log s h ↔ h.AcceptedNone k ∧ deliveries log = [] := by
  unfold Consistent
  cases phase : r.phase with
  | starting | locking | reclaiming | removing | removed | binding | accepting => rfl
  | reading | settled => simp [phase, Phase.rank] at early

theorem Consistent.other {i : Nat} (inv : r.Consistent k log s h) (sound : s.Sound h) (ne : k ≠ i)
    (t : Traffic i s h s' h') : r.Consistent k log s' h' := by
  have none (old : h.AcceptedNone k) : h'.AcceptedNone k :=
    fun c => mt (t.accepted_iff ne).mp (old c)
  have only {c} (old : h.AcceptedOnly k c) : h'.AcceptedOnly k c :=
    fun c' => (t.accepted_iff ne).trans (old c')
  unfold Consistent at inv ⊢
  split at inv
  next =>
    obtain ⟨silent, c, rfl, accepted, holds⟩ := inv
    have gave : h.Gave k ⟨c, .server⟩ := (accepted c).mpr rfl
    refine ⟨silent, c, rfl, only accepted, ?_⟩
    rwa [Wire.seen_of_grows (t.taken ne gave) (t.grows c) (sound.taken c)]
  next =>
    obtain ⟨payload, c, encoded, accepted, carried, told⟩ := inv
    exact ⟨payload, c, encoded, only accepted, Frame.verdict_of_prefix carried (t.grows c), told⟩
  next => trivial
  next => exact ⟨none inv.1, inv.2⟩

theorem holds_of_read {reader : FrameReader} {c grain : Nat} {outcome : Sockets.ReadOutcome}
    (sound : s.Sound h) (accepted : h.AcceptedOnly k c)
    (holds : reader.Holds Frame.maxPayload (s.wire c).seen)
    (took : s.read ⟨c, .server⟩ grain = (outcome, s')) :
    Traffic k s h s' h ∧ (reader.feed outcome.bytes).Holds Frame.maxPayload (s'.wire c).seen := by
  have gave : h.Gave k ⟨c, .server⟩ := (accepted c).mpr rfl
  obtain ⟨-, wires, given⟩ := Sockets.read_wires took
  refine ⟨sound.reads gave took, ?_⟩
  rw [Sockets.wire_of_modify_self wires (sound.made gave), Wire.seen_take given]
  exact holds.feed _

/-- A move of a call that leaves it as the history tells. -/
def Follows (r : Receiver) (k : Nat) (log : List LogEvent) (s : Sockets) (h : History)
    (o : Outcome Receiver) : Prop :=
  ∃ h', h.Becomes k r.stream? o.value.stream? h' ∧ Traffic k s h o.sockets h' ∧
    o.value.Consistent k (log ++ o.log) o.sockets h'

theorem follows_of_fails {result : CallResult Bundle} (fails : result.Fails)
    (traffic : Traffic k s h s' h) (log' : List LogEvent) :
    r.Follows k log s h ⟨r.goTo (.settled result), s', log'⟩ :=
  ⟨h, .same (by simp [stream?, goTo]), traffic, consistent_of_fails fails⟩

theorem follows_of_early {phase : Phase} (inv : r.Consistent k log s h)
    (early : r.phase.rank < 7) (early' : phase.rank < 7) (traffic : Traffic k s h s' h)
    {log' : List LogEvent} (silent : deliveries log' = []) :
    r.Follows k log s h ⟨r.goTo phase, s', log'⟩ := by
  obtain ⟨none, quiet⟩ := (consistent_iff_of_early early).mp inv
  refine ⟨h, .same fun c g => ?_, traffic, ?_⟩
  · cases phase with
    | starting | locking | reclaiming | removing | removed | binding | accepting | settled =>
      simp [stream?, goTo] at g
    | reading => simp [Phase.rank] at early'
  · exact (consistent_iff_of_early early').mpr ⟨none, by simp [quiet, silent]⟩

theorem follows_of_receive {stream : Endpoint} {deadline : Instant} {reader : FrameReader}
    {grain : Nat} {outcome : Sockets.ReadOutcome} {payload : Bytes} {bundle : Bundle}
    {log' : List LogEvent} (inv : r.Consistent k log s h) (binary : r.codec = .binary)
    (sound : s.Sound h) (phase : r.phase = .reading stream deadline reader)
    (took : s.read stream grain = (outcome, s'))
    (decided : (∃ bytes, outcome = .chunk bytes ∧ (reader.feed bytes).poll.1 = some (.ok payload)) ∨
      outcome = .atEnd ∧ reader.finish = .ok payload)
    (decoded : r.codec.decode payload = .ok bundle)
    (told : deliveries log' = [⟨bundle.length, payload.length, Digest.short payload⟩]) :
    r.Follows k log s h ⟨r.goTo (.settled (.returned (.ok bundle))), s'.close stream, log'⟩ := by
  simp only [Consistent, phase] at inv
  obtain ⟨quiet, c, rfl, accepted, holds⟩ := inv
  obtain ⟨traffic, fed⟩ := holds_of_read sound accepted holds took
  have read : Frame.verdict Frame.maxPayload (s'.wire c).seen = .ok payload := by
    obtain ⟨bytes, rfl, whole⟩ | ⟨rfl, whole⟩ := decided
    · exact Frame.verdict_of_verdict? (fed.poll.1.symm.trans whole)
    · have same : reader.feed [] = reader := by simp [FrameReader.feed]
      rw [← fed.finish, ← whole]
      exact congrArg FrameReader.finish same
  have closed := s'.still_close ⟨c, .server⟩
  rw [binary] at decoded
  refine ⟨h, .same (by simp [stream?, goTo]), traffic.trans (traffic.sound.still closed k), payload,
    c, Bundle.decode_eq_ok_iff_encode.mp decoded, accepted, ?_, by simp [quiet, told]⟩
  rw [Sockets.wire_of_wires closed.wires]
  exact Frame.verdict_of_prefix read (Wire.seen_prefix _)

/-- A receiver accepts one connection at most, and reads nothing but what it carries. -/
theorem Turn.follows {o : Outcome Receiver} (turn : r.Turn s o) (binary : r.codec = .binary)
    (sound : s.Sound h) (inv : r.Consistent k log s h) : r.Follows k log s h o := by
  cases turn with
  | quit _ fails => exact follows_of_fails fails (sound.still (.refl s) k) _
  | quitLocking _ fails => exact follows_of_fails fails (sound.still (Transport.still_detach s _) k) _
  | start phase =>
    exact follows_of_early inv (by simp [phase, Phase.rank]) (by simp [Phase.rank])
      (sound.still (.refl s) k) rfl
  | lock phase _ ahead =>
    refine follows_of_early inv (by simp [phase, Phase.rank]) ?_
      (sound.still (Transport.still_lock r.path s) k) (deliveries_lock r.path s)
    obtain rfl | rfl := ahead <;> simp [Phase.rank]
  | lockFails phase _ fails =>
    exact follows_of_fails fails (sound.still (Transport.still_lock r.path s) k) _
  | @release l _ phase fails =>
    exact follows_of_fails fails (sound.still (Transport.still_unlock l s) k) _
  | look phase seen =>
    refine follows_of_early inv (by simp [phase, Phase.rank]) ?_ (sound.still (.refl s) k) rfl
    obtain ⟨rfl, -⟩ | rfl := seen <;> simp [Phase.rank]
  | @quitRemoving l _ _ fails =>
    have released := (Transport.still_unlock l s).trans (Transport.still_detach _ (.unlink r.path))
    exact follows_of_fails fails (sound.still released k) _
  | remove phase =>
    exact follows_of_early inv (by simp [phase, Phase.rank]) (by simp [Phase.rank])
      (sound.still (Transport.still_remove r.path s) k) rfl
  | reclaimed phase silent =>
    exact follows_of_early inv (by simp [phase, Phase.rank]) (by simp [Phase.rank])
      (sound.still (.refl s) k) silent
  | @bind l _ _ phase bound =>
    exact follows_of_early inv (by simp [phase, Phase.rank]) (by simp [Phase.rank])
      (sound.listen_traffic r.path l k) (deliveries_listen r.path l s)
  | @bindFails l _ _ phase unbound fails =>
    exact follows_of_fails fails (sound.listen_traffic r.path l k) _
  | @overflow l li phase bound =>
    have listens := sound.listen_traffic r.path l k
    have closed := listens.sound.still (Transport.still_closeListener li _) k
    exact follows_of_fails (by simp) (listens.trans closed) _
  | @giveUp li _ _ _ phase fails =>
    exact follows_of_fails fails (sound.still (Transport.still_closeListener li s) k) _
  | @accept li _ stream s' log' phase accepted silent =>
    obtain ⟨none, quiet⟩ := (consistent_iff_of_early (by simp [phase, Phase.rank])).mp inv
    obtain ⟨c, side⟩ := stream
    obtain ⟨rfl, -, untaken, traffic⟩ := sound.accepts k accepted
    have closed := Transport.still_closeListener li s'
    refine ⟨_, .accepted (c := c) (by simp [stream?, goTo]) (by simp [stream?, goTo, phase]),
      traffic.trans (traffic.sound.still closed k), by simp [quiet, silent], c, rfl,
      none.accepts c, ?_⟩
    have seen : ((Transport.closeListener li s').sockets.wire c).seen = [] := by
      rw [Sockets.wire_of_wires closed.wires, Wire.seen, untaken, List.take_zero]
    rw [seen]
    exact FrameReader.new_holds Frame.maxPayload
  | @hangUp stream _ _ _ _ phase fails =>
    exact follows_of_fails fails (sound.still (s.still_close stream) k) _
  | read phase took undecided =>
    simp only [Consistent, phase] at inv
    obtain ⟨quiet, c, rfl, accepted, holds⟩ := inv
    obtain ⟨traffic, fed⟩ := holds_of_read sound accepted holds took
    have holds' := fed.poll.2
    simp only [Sockets.ReadOutcome.bytes, undecided] at holds'
    exact ⟨h, .same fun _ _ => by simp [stream?, goTo, phase], traffic, by simpa using quiet, c, rfl,
      accepted, holds' trivial⟩
  | @readFails stream _ _ _ _ s' _ _ phase took fails =>
    simp only [Consistent, phase] at inv
    obtain ⟨quiet, c, rfl, accepted, holds⟩ := inv
    have traffic := (holds_of_read sound accepted holds took).1
    exact follows_of_fails fails (traffic.trans (traffic.sound.still (s'.still_close _) k)) _
  | receive phase took decided decoded told =>
    exact follows_of_receive inv binary sound phase took decided decoded told

end Receiver

end EvidenceExchange
