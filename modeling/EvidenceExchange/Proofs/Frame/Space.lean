import EvidenceExchange.Proofs.Frame.Stream

namespace EvidenceExchange

theorem BufferSpace.le_capacity_reserve {s : BufferSpace} {held : Nat} (fits : held ≤ s.capacity)
    (more : Nat) : held + more ≤ (s.reserve held more).capacity := by
  unfold reserve
  split
  next => omega
  next =>
    split
    next =>
      simp only
      omega
    next =>
      have enough := Nat.le_max_right (2 * (s.capacity + s.freed)) (s.freed + held + more)
      simp only
      omega

namespace FrameCodec

/-- A codec that is asked with enough bytes, and still gives no payload, has taken a length off them. -/
theorem pending_of_decode_none {c : FrameCodec} (sound : c.Sound) {buffer : Bytes}
    (enough : c.pending.getD Frame.lengthSize ≤ buffer.length)
    (undecided : (c.decode buffer).result = .ok none) :
    (c.decode buffer).buffer.length + Frame.lengthSize = buffer.length ∧
      ∃ size, (c.decode buffer).codec.pending = some size ∧
        (c.decode buffer).buffer.length < size := by
  cases pending : c.pending with
  | some size =>
    rw [pending, Option.getD_some] at enough
    simp [decode, pending, takePayload, not_lt.mpr enough] at undecided
  | none =>
    rw [pending, Option.getD_none] at enough
    rw [decode_eq_answer sound, answer] at undecided ⊢
    have held : c.held buffer = buffer := by simp only [FrameCodec.held, pending]
    rw [held] at undecided ⊢
    cases hh : Frame.head c.limit buffer with
    | shortLength => exact absurd (Frame.head_eq_shortLength_iff.mp hh) (not_lt.mpr enough)
    | oversized size rest => simp [hh] at undecided
    | whole payload rest => simp [hh] at undecided
    | shortPayload size received =>
      obtain ⟨-, -, short, rfl⟩ := Frame.head_eq_shortPayload_iff.mp hh
      refine ⟨?_, size, rfl, short⟩
      rw [List.length_append, BigEndian.length_encode, Nat.add_comm]

end FrameCodec

namespace FrameReader

/-- A buffer that lies in its space, where a length fits in as long as none is known. -/
structure Fits (r : FrameReader) : Prop where
  size : r.buffer.size ≤ r.space.capacity
  length : r.codec.pending = none → Frame.lengthSize ≤ r.space.capacity

/-- Where some of a payload is missing, there is room once it has been made. -/
theorem makeRoom_fits {r : FrameReader} {size : Nat} (pending : r.codec.pending = some size)
    (missing : r.buffer.size < size) (fits : r.buffer.size ≤ r.space.capacity) :
    r.makeRoom.Fits ∧ 0 < r.makeRoom.room := by
  have enough := BufferSpace.le_capacity_reserve fits (min (size - r.buffer.size) largestReserve)
  have positive : 0 < min (size - r.buffer.size) largestReserve := by
    simp only [largestReserve]
    omega
  simp only [makeRoom, pending, room]
  refine ⟨⟨?_, fun unknown => ?_⟩, ?_⟩
  · simp only
    omega
  · simp [pending] at unknown
  · omega

/-- A reader that has asked in vain has room for what it asks for next. -/
theorem poll_fits {r : FrameReader} (sound : r.codec.Sound) (fits : r.Fits)
    (undecided : r.poll.1 = none) : r.poll.2.Fits ∧ 0 < r.poll.2.room := by
  unfold poll at undecided ⊢
  split at undecided
  next less =>
    rw [if_pos less]
    unfold needed at less
    cases pending : r.codec.pending with
    | none =>
      have length := fits.length pending
      rw [pending, Option.getD_none] at less
      simp only [makeRoom, pending, room]
      exact ⟨fits, by omega⟩
    | some size =>
      rw [pending, Option.getD_some] at less
      exact makeRoom_fits pending less fits.size
  next enough =>
    rw [if_neg enough]
    have none : (r.codec.decode r.buffer.toList).result = .ok none := by
      simp only at undecided
      split at undecided
      next => cases undecided
      next => cases undecided
      next h => exact h
    simp only [none]
    obtain ⟨shorter, size, pending, missing⟩ :=
      FrameCodec.pending_of_decode_none sound (by simpa [needed] using enough) none
    have size_le := fits.size
    rw [Array.length_toList] at shorter
    refine makeRoom_fits pending (by simpa using missing) ?_
    simp only [List.size_toArray, BufferSpace.free]
    omega

/-- A reader between two reads: the bytes taken so far decide nothing, and there is room for more. -/
structure Ready (r : FrameReader) (bytes : Bytes) : Prop where
  holds : r.Holds Frame.maxPayload bytes
  undecided : Frame.verdict? Frame.maxPayload bytes = none
  fits : r.Fits
  room : 0 < r.room

theorem ready_new : (new .new).Ready [] where
  holds := new_holds Frame.maxPayload
  undecided := rfl
  fits := ⟨by decide, fun _ => by decide⟩
  room := by decide

/-- A read that fits into the room decides the frame, or leaves the reader ready for the next one. -/
theorem Ready.read {r : FrameReader} {bytes chunk : Bytes} (ready : r.Ready bytes)
    (le : chunk.length ≤ r.room) :
    (r.feed chunk).poll.1 = Frame.verdict? Frame.maxPayload (bytes ++ chunk) ∧
      ((r.feed chunk).poll.1 = none → (r.feed chunk).poll.2.Ready (bytes ++ chunk)) := by
  have fed := ready.holds.feed chunk
  obtain ⟨verdict, holds⟩ := fed.poll
  refine ⟨verdict, fun none => ?_⟩
  have size : (r.buffer ++ chunk).size = r.buffer.size + chunk.length := by
    rw [← Array.length_toList, Array.toList_appendList, List.length_append, Array.length_toList]
  have fits : (r.feed chunk).Fits := by
    refine ⟨?_, ready.fits.length⟩
    have before := ready.fits.size
    simp only [FrameReader.feed, FrameReader.room, size] at le ⊢
    omega
  obtain ⟨left, room⟩ := poll_fits fed.sound fits none
  exact ⟨holds none, verdict.symm.trans none, left, room⟩

end FrameReader

end EvidenceExchange
