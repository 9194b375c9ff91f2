import EvidenceExchange.Frame.Duplex
import EvidenceExchange.Proofs.Frame.Grammar

namespace EvidenceExchange

namespace Frame

variable {payload : Bytes}

/-- The largest payload has a length of four bytes. -/
theorem length_lt_of_fits (fits : payload.length ≤ maxPayload) :
    payload.length < 256 ^ lengthSize := fits.trans_lt (by decide)

theorem decode_length_prefix (fits : payload.length ≤ maxPayload) (rest : Bytes) :
    BigEndian.decode ((BigEndian.encode lengthSize payload.length ++ rest).take lengthSize) =
      payload.length := by
  rw [List.take_left' (BigEndian.length_encode ..)]
  exact BigEndian.decode_encode_of_lt (length_lt_of_fits fits)

theorem head_of_frame (fits : payload.length ≤ maxPayload) (limit : Nat) (rest : Bytes) :
    head limit (BigEndian.encode lengthSize payload.length ++ payload ++ rest) =
      if payload.length ≤ limit then .whole payload rest
      else .oversized payload.length (payload ++ rest) := by
  have size := length_lt_of_fits fits
  by_cases within : payload.length ≤ limit
  · rw [if_pos within]
    exact head_eq_whole_iff.mpr ⟨within, size, rfl⟩
  · rw [if_neg within]
    exact head_eq_oversized_iff.mpr ⟨not_le.mp within, size, List.append_assoc ..⟩

end Frame

namespace FrameCodec

theorem encode_eq (c : FrameCodec) (payload buffer : Bytes) :
    c.encode payload buffer =
      if payload.length ≤ c.limit then
        ⟨.ok (), c, buffer ++ (BigEndian.encode Frame.lengthSize payload.length ++ payload)⟩
      else ⟨.error (.payloadTooLarge payload.length c.limit), c, buffer⟩ := by
  rw [encode, Frame.put_eq]
  by_cases within : payload.length ≤ c.limit
  · simp only [if_pos within, List.append_assoc]
  · simp only [if_neg within]

theorem decode_frame {payload : Bytes} (fits : payload.length ≤ Frame.maxPayload) {c : FrameCodec}
    (fresh : c.pending = none) (rest : Bytes) :
    c.decode (BigEndian.encode Frame.lengthSize payload.length ++ payload ++ rest) =
      if payload.length ≤ c.limit then ⟨.ok (some payload), c, rest⟩
      else ⟨.error (.payloadTooLarge payload.length c.limit), c, payload ++ rest⟩ := by
  have sound : c.Sound := fun size awaited => by cases fresh.symm.trans awaited
  have same : c.awaiting none = c := by rw [awaiting, ← fresh]
  rw [decode_eq_answer sound, held, fresh]
  simp only [answer, Frame.head_of_frame fits, same]
  by_cases within : payload.length ≤ c.limit
  · simp only [if_pos within]
  · simp only [if_neg within]

end FrameCodec

theorem Duplex.apply_encode (d : Duplex) (payload : Bytes) :
    d.apply (.encode payload) =
      if payload.length ≤ d.codec.limit then
        (.ok .done, { d with
          outgoing := d.outgoing ++ (BigEndian.encode Frame.lengthSize payload.length ++ payload) })
      else (.error (.payloadTooLarge payload.length d.codec.limit), d) := by
  rw [apply, FrameCodec.encode_eq]
  by_cases within : payload.length ≤ d.codec.limit
  · simp only [if_pos within]
    rfl
  · simp only [if_neg within]
    rfl

/-- A codec writes the frame of a payload exactly if the payload is within its limit, which is never
above the largest, and its length is then written in full. A payload that is refused leaves the codec
and both its buffers as they were. A new codec that has a limit of its own takes the payload off the
front of what is received, or refuses the length alone. -/
theorem FrameCodec.limits_agree (a b : Nat) (payload : Bytes) :
    let m := min a 1048576
    let n := min b 1048576
    let frame := BigEndian.encode 4 payload.length ++ payload
    (∀ (pending : Option Nat) (incoming outgoing : Bytes),
      let c := (withLimit a).awaiting pending
      let d : Duplex := ⟨c, incoming, outgoing⟩
      (c.encode payload outgoing =
        if payload.length ≤ m then ⟨.ok (), c, outgoing ++ frame⟩
        else ⟨.error (.payloadTooLarge payload.length m), c, outgoing⟩) ∧
      d.apply (.encode payload) =
        if payload.length ≤ m then (.ok .done, { d with outgoing := outgoing ++ frame })
        else (.error (.payloadTooLarge payload.length m), d)) ∧
    (Frame.encode payload =
      if payload.length ≤ 1048576 then .ok frame
      else .error (.payloadTooLarge payload.length 1048576)) ∧
    (payload.length ≤ 1048576 →
      (UInt32.ofNat payload.length).toNat = payload.length ∧
      BigEndian.decode (frame.take 4) = payload.length ∧
      ∀ rest, (withLimit b).decode (frame ++ rest) =
        if payload.length ≤ n then ⟨.ok (some payload), withLimit b, rest⟩
        else ⟨.error (.payloadTooLarge payload.length n), withLimit b, payload ++ rest⟩) := by
  intro m n frame
  refine ⟨fun pending incoming outgoing => ?_, Frame.encodeWithin_eq _ payload, fun fits => ?_⟩
  · exact ⟨encode_eq _ payload outgoing,
      Duplex.apply_encode ⟨(withLimit a).awaiting pending, incoming, outgoing⟩ payload⟩
  · have size : payload.length < 2 ^ 32 := fits.trans_lt (by decide)
    exact ⟨UInt32.toNat_ofNat_of_lt' size, Frame.decode_length_prefix fits payload,
      decode_frame (c := withLimit b) fits rfl⟩

/-- What a side writes at its own limit is above the other side's limit by one byte. -/
theorem FrameCodec.limits_agree_but_for_one_byte :
    let payload : Bytes := [7, 8, 9]
    let frame : Bytes := [0, 0, 0, 3, 7, 8, 9]
    payload.length ≤ 1048576 ∧
      (⟨withLimit 3, [], [5]⟩ : Duplex).apply (.encode payload) =
        (.ok .done, ⟨withLimit 3, [], 5 :: frame⟩) ∧
      (withLimit 2).decode (frame ++ [0]) =
        ⟨.error (.payloadTooLarge 3 2), withLimit 2, [7, 8, 9, 0]⟩ := by
  intro payload frame
  have fits : payload.length ≤ 1048576 := by decide
  obtain ⟨written, -, read⟩ := limits_agree 3 2 payload
  have within : payload.length ≤ min 3 1048576 := by decide
  have above : ¬payload.length ≤ min 2 1048576 := by decide
  have bytes : BigEndian.encode 4 payload.length ++ payload = frame := by decide
  have sent := (written none [] [5]).2
  have refused := (read fits).2.2 [0]
  simp only [if_pos within, bytes] at sent
  rw [if_neg above, bytes] at refused
  exact ⟨fits, sent, refused⟩

end EvidenceExchange
