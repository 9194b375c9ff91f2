import EvidenceExchange.Bytes.Lemmas
import EvidenceExchange.Frame.Codec
import EvidenceExchange.Proofs.Checks
import Mathlib

namespace EvidenceExchange

/-- What some bytes begin with. -/
inductive FrameHead where
  | shortLength
  | oversized (size : Nat) (rest : Bytes)
  | shortPayload (size : Nat) (received : Bytes)
  | whole (payload rest : Bytes)

namespace Frame

/-- A payload that is refused leaves the buffer as it was. -/
theorem put_eq (limit : Nat) (payload buffer : Bytes) :
    put limit payload buffer =
      if payload.length ≤ limit then
        (.ok (), buffer ++ BigEndian.encode lengthSize payload.length ++ payload)
      else (.error (.payloadTooLarge payload.length limit), buffer) := by
  unfold put checkSize
  by_cases fits : payload.length ≤ limit
  · simp only [if_pos fits, if_neg (not_lt.mpr fits)]
  · simp only [if_neg fits, if_pos (not_le.mp fits)]

theorem encodeWithin_eq (limit : Nat) (payload : Bytes) :
    encodeWithin limit payload =
      if payload.length ≤ limit then .ok (BigEndian.encode lengthSize payload.length ++ payload)
      else .error (.payloadTooLarge payload.length limit) := by
  rw [encodeWithin, put_eq]
  by_cases fits : payload.length ≤ limit
  · simp only [if_pos fits, List.nil_append]
    rfl
  · simp only [if_neg fits]
    rfl

theorem encodeWithin_eq_ok_iff {limit : Nat} {payload frame : Bytes} :
    encodeWithin limit payload = .ok frame ↔
      payload.length ≤ limit ∧ frame = BigEndian.encode lengthSize payload.length ++ payload := by
  rw [encodeWithin_eq]
  split
  next fits => simp [fits, eq_comm]
  next exceeds => simp [exceeds]

def head (limit : Nat) (bytes : Bytes) : FrameHead :=
  if bytes.length < lengthSize then .shortLength
  else
    let size := BigEndian.decode (bytes.take lengthSize)
    let rest := bytes.drop lengthSize
    if limit < size then .oversized size rest
    else if rest.length < size then .shortPayload size rest
    else .whole (rest.take size) (rest.drop size)

theorem head_encode {limit size : Nat} (h : size < 256 ^ lengthSize) (rest : Bytes) :
    head limit (BigEndian.encode lengthSize size ++ rest) =
      if limit < size then .oversized size rest
      else if rest.length < size then .shortPayload size rest
      else .whole (rest.take size) (rest.drop size) := by
  have hlen := BigEndian.length_encode lengthSize size
  have hlong : ¬(BigEndian.encode lengthSize size ++ rest).length < lengthSize := by
    rw [List.length_append, hlen]
    omega
  simp only [head, if_neg hlong, List.take_left' hlen, List.drop_left' hlen,
    BigEndian.decode_encode_of_lt h]

/-- Four bytes or more are a length and what follows it. -/
theorem exists_length_prefix {bytes : Bytes} (h : lengthSize ≤ bytes.length) :
    ∃ size rest, size < 256 ^ lengthSize ∧ bytes = BigEndian.encode lengthSize size ++ rest := by
  have hlen : (bytes.take lengthSize).length = lengthSize := by
    rw [List.length_take]
    omega
  have hlt := BigEndian.decode_lt (bytes.take lengthSize)
  have hdigits := BigEndian.encode_decode (bytes.take lengthSize)
  rw [hlen] at hlt hdigits
  exact ⟨_, bytes.drop lengthSize, hlt, by rw [hdigits, List.take_append_drop]⟩

theorem head_eq_shortLength_iff {limit : Nat} {bytes : Bytes} :
    head limit bytes = .shortLength ↔ bytes.length < lengthSize := by
  constructor
  · intro h
    by_contra hlong
    obtain ⟨size, rest, hsize, rfl⟩ := exists_length_prefix (not_lt.mp hlong)
    rw [head_encode hsize] at h
    split at h
    next => cases h
    next => split at h <;> cases h
  · intro h
    rw [head, if_pos h]

theorem head_eq_oversized_iff {limit size : Nat} {bytes rest : Bytes} :
    head limit bytes = .oversized size rest ↔
      limit < size ∧ size < 256 ^ lengthSize ∧
        bytes = BigEndian.encode lengthSize size ++ rest := by
  constructor
  · intro h
    by_cases hshort : bytes.length < lengthSize
    · rw [head_eq_shortLength_iff.mpr hshort] at h
      cases h
    · obtain ⟨n, left, hn, rfl⟩ := exists_length_prefix (not_lt.mp hshort)
      rw [head_encode hn] at h
      split at h
      next hlimit =>
        cases h
        exact ⟨hlimit, hn, rfl⟩
      next => split at h <;> cases h
  · rintro ⟨hlimit, hsize, rfl⟩
    rw [head_encode hsize, if_pos hlimit]

theorem head_eq_shortPayload_iff {limit size : Nat} {bytes received : Bytes} :
    head limit bytes = .shortPayload size received ↔
      size ≤ limit ∧ size < 256 ^ lengthSize ∧ received.length < size ∧
        bytes = BigEndian.encode lengthSize size ++ received := by
  constructor
  · intro h
    by_cases hshort : bytes.length < lengthSize
    · rw [head_eq_shortLength_iff.mpr hshort] at h
      cases h
    · obtain ⟨n, left, hn, rfl⟩ := exists_length_prefix (not_lt.mp hshort)
      rw [head_encode hn] at h
      split at h
      next => cases h
      next hlimit =>
        split at h
        next hless =>
          cases h
          exact ⟨not_lt.mp hlimit, hn, hless, rfl⟩
        next => cases h
  · rintro ⟨hlimit, hsize, hless, rfl⟩
    rw [head_encode hsize, if_neg (not_lt.mpr hlimit), if_pos hless]

theorem head_eq_whole_iff {limit : Nat} {bytes payload rest : Bytes} :
    head limit bytes = .whole payload rest ↔
      payload.length ≤ limit ∧ payload.length < 256 ^ lengthSize ∧
        bytes = BigEndian.encode lengthSize payload.length ++ payload ++ rest := by
  constructor
  · intro h
    by_cases hshort : bytes.length < lengthSize
    · rw [head_eq_shortLength_iff.mpr hshort] at h
      cases h
    · obtain ⟨n, left, hn, rfl⟩ := exists_length_prefix (not_lt.mp hshort)
      rw [head_encode hn] at h
      split at h
      next => cases h
      next hlimit =>
        split at h
        next => cases h
        next henough =>
          cases h
          have hcut : (left.take n).length = n := by
            rw [List.length_take]
            omega
          rw [hcut, List.append_assoc, List.take_append_drop]
          exact ⟨not_lt.mp hlimit, hn, rfl⟩
  · rintro ⟨hlimit, hsize, rfl⟩
    rw [List.append_assoc, head_encode hsize, if_neg (not_lt.mpr hlimit), List.take_left,
      List.drop_left, if_neg (by simp)]

/-- More bytes do not change a frame that is whole. -/
theorem head_append_of_whole {limit : Nat} {bytes payload rest : Bytes}
    (h : head limit bytes = .whole payload rest) (more : Bytes) :
    head limit (bytes ++ more) = .whole payload (rest ++ more) := by
  obtain ⟨hlimit, hsize, rfl⟩ := head_eq_whole_iff.mp h
  exact head_eq_whole_iff.mpr ⟨hlimit, hsize, by rw [List.append_assoc]⟩

theorem head_append_of_oversized {limit size : Nat} {bytes rest : Bytes}
    (h : head limit bytes = .oversized size rest) (more : Bytes) :
    head limit (bytes ++ more) = .oversized size (rest ++ more) := by
  obtain ⟨hlimit, hsize, rfl⟩ := head_eq_oversized_iff.mp h
  exact head_eq_oversized_iff.mpr ⟨hlimit, hsize, by rw [List.append_assoc]⟩

theorem length_lt_of_whole {limit : Nat} {bytes payload rest : Bytes}
    (h : head limit bytes = .whole payload rest) : rest.length < bytes.length := by
  obtain ⟨_, _, rfl⟩ := head_eq_whole_iff.mp h
  simp only [List.length_append, BigEndian.length_encode, lengthSize]
  omega

/-- Payloads before those of a stream. -/
def followedBy (payloads : List Bytes) (later : List Bytes × Except FrameError Unit) :
    List Bytes × Except FrameError Unit :=
  (payloads ++ later.1, later.2)

/-- The payloads of a stream that holds these bytes and no more, and how it ends. -/
def parse (limit : Nat) (bytes : Bytes) : List Bytes × Except FrameError Unit :=
  match _h : head limit bytes with
  | .shortLength =>
    ([], if bytes = [] then .ok () else .error (.truncatedLength bytes.length))
  | .oversized size _ => ([], .error (.payloadTooLarge size limit))
  | .shortPayload size received => ([], .error (.truncatedPayload size received.length))
  | .whole payload rest => followedBy [payload] (parse limit rest)
termination_by bytes.length
decreasing_by exact length_lt_of_whole _h

theorem parse_of_shortLength {limit : Nat} {bytes : Bytes}
    (h : head limit bytes = .shortLength) :
    parse limit bytes =
      ([], if bytes = [] then .ok () else .error (.truncatedLength bytes.length)) := by
  rw [parse]
  split <;> simp_all

theorem parse_of_oversized {limit size : Nat} {bytes rest : Bytes}
    (h : head limit bytes = .oversized size rest) :
    parse limit bytes = ([], .error (.payloadTooLarge size limit)) := by
  rw [parse]
  split <;> simp_all

theorem parse_of_shortPayload {limit size : Nat} {bytes received : Bytes}
    (h : head limit bytes = .shortPayload size received) :
    parse limit bytes = ([], .error (.truncatedPayload size received.length)) := by
  rw [parse]
  split <;> simp_all

theorem parse_of_whole {limit : Nat} {bytes payload rest : Bytes}
    (h : head limit bytes = .whole payload rest) :
    parse limit bytes = followedBy [payload] (parse limit rest) := by
  rw [parse]
  split <;> simp_all

end Frame

namespace FrameCodec

/-- An awaited length was found to be within the limit. -/
def Sound (c : FrameCodec) : Prop := ∀ size, c.pending = some size → size ≤ c.limit

/-- The bytes taken in and not answered yet: an awaited length still stands in front of the buffer. -/
def held (c : FrameCodec) (buffer : Bytes) : Bytes :=
  match c.pending with
  | none => buffer
  | some size => BigEndian.encode Frame.lengthSize size ++ buffer

theorem held_append (c : FrameCodec) (buffer more : Bytes) :
    c.held (buffer ++ more) = c.held buffer ++ more := by
  unfold held
  split
  next => rfl
  next => rw [List.append_assoc]

def awaiting (c : FrameCodec) (pending : Option Nat) : FrameCodec := { c with pending := pending }

/-- The answer of a codec that holds the given bytes, and what it leaves. -/
def answer (c : FrameCodec) (bytes : Bytes) : Step (Option Bytes) :=
  match Frame.head c.limit bytes with
  | .shortLength => ⟨.ok none, c.awaiting none, bytes⟩
  | .oversized size rest => ⟨.error (.payloadTooLarge size c.limit), c.awaiting none, rest⟩
  | .shortPayload size received => ⟨.ok none, c.awaiting (some size), received⟩
  | .whole payload rest => ⟨.ok (some payload), c.awaiting none, rest⟩

theorem withLimit_sound (limit : Nat) : (withLimit limit).Sound := by
  intro size h
  cases h

theorem awaiting_none_sound (c : FrameCodec) : (c.awaiting none).Sound := by
  intro size h
  cases h

theorem lt_of_le_limit (c : FrameCodec) {size : Nat} (h : size ≤ c.limit) :
    size < 256 ^ Frame.lengthSize := by
  have hmax := c.limit_le
  simp only [Frame.maxPayload] at hmax
  simp only [Frame.lengthSize]
  omega

/-- Where a length has been read off matters to no answer: a codec that awaits a payload answers
as one that has both length and payload in front of it. -/
theorem decode_eq_answer {c : FrameCodec} (sound : c.Sound) (buffer : Bytes) :
    c.decode buffer = c.answer (c.held buffer) := by
  obtain ⟨pending, limit, hle⟩ := c
  cases pending with
  | none =>
    by_cases hshort : buffer.length < Frame.lengthSize
    · simp [decode, answer, held, awaiting, Frame.head, hshort]
    · obtain ⟨size, rest, hsize, rfl⟩ := Frame.exists_length_prefix (not_lt.mp hshort)
      have hlen := BigEndian.length_encode Frame.lengthSize size
      simp only [decode, answer, held, Frame.head_encode hsize, List.take_left' hlen,
        List.drop_left' hlen, hlen, BigEndian.decode_encode_of_lt hsize, Frame.checkSize, lt_irrefl,
        if_false, gt_iff_lt]
      by_cases hlimit : limit < size
      · simp only [hlimit, if_true, awaiting]
      · simp only [hlimit, if_false, takePayload, awaiting]
        by_cases hless : rest.length < size <;> simp only [hless, if_true, if_false]
  | some size =>
    have hlimit : size ≤ limit := sound size rfl
    have hsize := lt_of_le_limit ⟨some size, limit, hle⟩ hlimit
    simp only [decode, answer, held, Frame.head_encode hsize, not_lt.mpr hlimit, if_false,
      takePayload, awaiting]
    by_cases hless : buffer.length < size <;> simp only [hless, if_true, if_false]

/-- A call that gives no payload leaves the bytes held as they are. -/
theorem decode_none {c : FrameCodec} (sound : c.Sound) {buffer : Bytes}
    (h : (c.decode buffer).result = .ok none) :
    (c.decode buffer).codec.Sound ∧ (c.decode buffer).codec.limit = c.limit ∧
      (c.decode buffer).codec.held (c.decode buffer).buffer = c.held buffer := by
  rw [decode_eq_answer sound, answer] at h ⊢
  cases hh : Frame.head c.limit (c.held buffer) with
  | shortLength => exact ⟨awaiting_none_sound c, rfl, rfl⟩
  | oversized size rest => simp [hh] at h
  | shortPayload size received =>
    obtain ⟨hlimit, _, _, hbytes⟩ := Frame.head_eq_shortPayload_iff.mp hh
    refine ⟨?_, rfl, hbytes.symm⟩
    rintro n hn
    exact Option.some.inj hn ▸ hlimit
  | whole payload rest => simp [hh] at h

end FrameCodec

end EvidenceExchange
