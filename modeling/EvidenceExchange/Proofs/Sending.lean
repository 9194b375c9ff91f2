import EvidenceExchange.Proofs.Moves.Sender
import EvidenceExchange.Proofs.Recording
import EvidenceExchange.Proofs.WireImage

namespace EvidenceExchange

open Evidence

/-- No payload can be read from these bytes. -/
def Frame.Lacks (bytes : Bytes) : Prop := ∀ payload, verdict maxPayload bytes ≠ .ok payload

namespace Frame

theorem ne_nil_of_encode {payload w : Bytes} (framed : encode payload = .ok w) : w ≠ [] := by
  rintro rfl
  obtain ⟨-, empty⟩ := encode_eq_ok_iff.mp framed
  have size := congrArg List.length empty
  simp only [List.length_nil, List.length_append, BigEndian.length_encode, lengthSize] at size
  omega

theorem lacks_nil : Lacks [] := by
  intro payload h
  obtain ⟨w, hw, hprefix⟩ := verdict_eq_ok_iff_encode.mp h
  exact ne_nil_of_encode hw (List.prefix_nil.mp hprefix)

/-- Nothing can be read before the last byte of a frame. -/
theorem lacks_of_short {payload sent rest : Bytes} (framed : encode payload = .ok (sent ++ rest))
    (short : rest ≠ []) : Lacks sent := by
  intro other h
  obtain ⟨w, hw, hprefix⟩ := verdict_eq_ok_iff_encode.mp h
  have whole := verdict_eq_ok_iff_encode.mpr ⟨_, framed, List.prefix_rfl⟩
  have same := verdict_of_prefix h (List.prefix_append sent rest)
  obtain rfl := Except.ok.inj (whole.symm.trans same)
  obtain rfl := Except.ok.inj (framed.symm.trans hw)
  have := hprefix.length_le
  have := List.length_pos_iff.mpr short
  simp only [List.length_append] at *
  omega

end Frame

namespace Sender

/-- How a call stands to its log, to the wires and to the history. -/
def Consistent (d : Sender) (k : Nat) (log : List LogEvent) (s : Sockets) (h : History) : Prop :=
  match d.phase with
  | .starting => h.OpenedNone k ∧ deliveries log = []
  | .connecting payload _ =>
    d.bundle.encode = .ok payload ∧ h.OpenedNone k ∧ deliveries log = []
  | .writing payload stream rest =>
    d.bundle.encode = .ok payload ∧ deliveries log = [] ∧
      ∃ c, stream = ⟨c, .client⟩ ∧ h.OpenedOnly k c ∧
        Frame.encode payload = .ok ((s.wire c).carried ++ rest) ∧ rest ≠ []
  | .settled (.returned (.ok ())) =>
    ∃ payload c, d.bundle.encode = .ok payload ∧ h.OpenedOnly k c ∧
      Frame.encode payload = .ok (s.wire c).carried ∧
      deliveries log = [⟨d.bundle.length, payload.length, Digest.short payload⟩]
  | .settled _ => ∀ c, h.openers[c]? = some k → Frame.Lacks (s.wire c).carried

variable {d : Sender} {k : Nat} {log : List LogEvent} {s s' : Sockets} {h h' : History}

theorem consistent_of_fails {result : CallResult Unit} (fails : result.Fails)
    (lacks : ∀ c, h.openers[c]? = some k → Frame.Lacks (s.wire c).carried) :
    (d.goTo (.settled result)).Consistent k log s h := by
  unfold Consistent
  split
  next phase => cases phase
  next phase => cases phase
  next phase => cases phase
  next phase => exact absurd (Phase.settled.inj phase) (fails ())
  next => exact lacks

theorem Consistent.other {i : Nat} (inv : d.Consistent k log s h) (ne : k ≠ i)
    (t : Traffic i s h s' h') : d.Consistent k log s' h' := by
  have none (old : h.OpenedNone k) : h'.OpenedNone k := fun c => mt (t.opened_iff ne).mp (old c)
  have only {c} (old : h.OpenedOnly k c) : h'.OpenedOnly k c :=
    fun c' => (t.opened_iff ne).trans (old c')
  have carried {c} (g : h.openers[c]? = some k) : (s'.wire c).carried = (s.wire c).carried :=
    t.carried ne g
  unfold Consistent at inv ⊢
  split at inv
  next => exact ⟨none inv.1, inv.2⟩
  next => exact ⟨inv.1, none inv.2.1, inv.2.2⟩
  next =>
    obtain ⟨encoded, silent, c, rfl, opened, framed, short⟩ := inv
    refine ⟨encoded, silent, c, rfl, only opened, ?_, short⟩
    rw [carried ((opened c).mpr rfl), framed]
  next =>
    obtain ⟨payload, c, encoded, opened, framed, told⟩ := inv
    refine ⟨payload, c, encoded, only opened, ?_, told⟩
    rw [carried ((opened c).mpr rfl), framed]
  next =>
    intro c g
    have old := (t.opened_iff ne).mp g
    rw [carried old]
    exact inv c old

/-- A sender opens one connection at most, and its frame goes over it in order. -/
theorem Turn.follows {o : Outcome Sender} (turn : d.Turn s o) (binary : d.codec = .binary)
    (sound : s.Sound h) (inv : d.Consistent k log s h) :
    ∃ h', h.Becomes k d.stream? o.value.stream? h' ∧ Traffic k s h o.sockets h' ∧
      o.value.Consistent k (log ++ o.log) o.sockets h' := by
  cases turn with
  | quit early fails silent =>
    refine ⟨h, .same (by simp [stream?, goTo]), sound.still (.refl s) k,
      consistent_of_fails fails fun c g => ?_⟩
    have none : h.OpenedNone k := by
      obtain phase | ⟨payload, retry, phase⟩ := early
      · simp only [Consistent, phase] at inv
        exact inv.1
      · simp only [Consistent, phase] at inv
        exact inv.2.1
    exact absurd g (none c)
  | start phase encoded =>
    simp only [Consistent, phase] at inv
    obtain ⟨none, quiet⟩ := inv
    rw [binary] at encoded
    exact ⟨h, .same (by simp [stream?, goTo]), sound.still (.refl s) k, encoded, none,
      by simpa using quiet⟩
  | retry phase _ silent =>
    simp only [Consistent, phase] at inv
    obtain ⟨encoded, none, quiet⟩ := inv
    exact ⟨h, .same (by simp [stream?, goTo]), sound.still (.refl s) k, encoded, none,
      by simp [quiet, silent]⟩
  | connect phase connected framed silent =>
    simp only [Consistent, phase] at inv
    obtain ⟨encoded, none, quiet⟩ := inv
    obtain ⟨rfl, new, traffic⟩ := sound.connects k connected
    have opened := none.opens
    rw [sound.openers] at opened
    refine ⟨_, .opened (by simp [stream?, goTo]), traffic, encoded, by simp [quiet, silent], _, rfl,
      opened, ?_, Frame.ne_nil_of_encode framed⟩
    rw [new, framed]
    rfl
  | @connectFails _ _ stream s' _ _ _ phase connected unframed fails silent =>
    simp only [Consistent, phase] at inv
    obtain ⟨encoded, none, quiet⟩ := inv
    obtain ⟨rfl, new, traffic⟩ := sound.connects k connected
    have opened := none.opens
    rw [sound.openers] at opened
    have closed := s'.still_close ⟨s.wires.length, .client⟩
    refine ⟨_, .opened (by simp [stream?, goTo]), traffic.trans (traffic.sound.still closed k),
      consistent_of_fails fails fun c g => ?_⟩
    rw [(opened c).mp g, Sockets.wire_of_wires closed.wires, new]
    exact Frame.lacks_nil
  | write phase wrote more =>
    simp only [Consistent, phase] at inv
    obtain ⟨encoded, quiet, c, rfl, opened, framed, short⟩ := inv
    have gave : h.Gave k ⟨c, .client⟩ := (opened c).mpr rfl
    obtain ⟨-, inside, wires⟩ := Sockets.write_eq_wrote wrote
    refine ⟨h, .same (by simp [stream?, goTo]), sound.writes gave wrote, encoded,
      by simpa using quiet, c, rfl, opened, ?_, more⟩
    rw [Sockets.wire_of_modify_self wires inside, framed]
    simp [Wire.send]
  | @deliver _ stream rest _ count s' _ phase wrote all told =>
    simp only [Consistent, phase] at inv
    obtain ⟨encoded, quiet, c, rfl, opened, framed, short⟩ := inv
    have gave : h.Gave k ⟨c, .client⟩ := (opened c).mpr rfl
    have traffic := sound.writes gave wrote
    obtain ⟨-, inside, wires⟩ := Sockets.write_eq_wrote wrote
    have closed := (s'.still_shutdownWrite ⟨c, .client⟩).trans (Sockets.still_close _ ⟨c, .client⟩)
    refine ⟨h, .same (by simp [stream?, goTo]), traffic.trans (traffic.sound.still closed k), _, c,
      encoded, opened, ?_, ?_⟩
    · have whole : rest.take count = rest := by simpa [all] using List.take_append_drop count rest
      rw [Sockets.wire_of_wires closed.wires, Sockets.wire_of_modify_self wires inside, framed]
      simp [Wire.send, whole]
    · rw [deliveries_append, quiet, told]
      rfl
  | @hangUp _ stream _ _ _ phase fails silent =>
    simp only [Consistent, phase] at inv
    obtain ⟨encoded, quiet, c, rfl, opened, framed, short⟩ := inv
    have closed := s.still_close ⟨c, .client⟩
    refine ⟨h, .same (by simp [stream?, goTo]), sound.still closed k,
      consistent_of_fails fails fun c' g => ?_⟩
    rw [(opened c').mp g, Sockets.wire_of_wires closed.wires]
    exact Frame.lacks_of_short framed short

/-- If anything can be read from the connection of a sender, the sender has returned. -/
theorem Consistent.returned {payload : Bytes} {c : Nat} (inv : d.Consistent k log s h)
    (opened : h.openers[c]? = some k)
    (whole : Frame.verdict Frame.maxPayload (s.wire c).carried = .ok payload) :
    d.phase = .settled (.returned (.ok ())) ∧ h.OpenedOnly k c ∧ d.bundle.encode = .ok payload ∧
      deliveries log = [⟨d.bundle.length, payload.length, Digest.short payload⟩] := by
  unfold Consistent at inv
  split at inv
  next => exact absurd opened (inv.1 c)
  next => exact absurd opened (inv.2.1 c)
  next =>
    obtain ⟨-, -, c', -, only, framed, short⟩ := inv
    obtain rfl := (only c).mp opened
    exact absurd whole (Frame.lacks_of_short framed short payload)
  next phase =>
    obtain ⟨payload', c', encoded, only, framed, told⟩ := inv
    obtain rfl := (only c).mp opened
    have read := Frame.verdict_eq_ok_iff_encode.mpr ⟨_, framed, List.prefix_rfl⟩
    obtain rfl := Except.ok.inj (read.symm.trans whole)
    exact ⟨phase, only, encoded, told⟩
  next => exact absurd whole (inv c opened payload)

end Sender

end EvidenceExchange
