import EvidenceExchange.Proofs.Evidence.RoundTrip
import EvidenceExchange.Proofs.Frame.Stream

namespace EvidenceExchange

open Evidence

theorem Frame.encode_eq_ok_iff {payload w : Bytes} :
    Frame.encode payload = .ok w ↔
      payload.length ≤ maxPayload ∧ w = BigEndian.encode lengthSize payload.length ++ payload :=
  encodeWithin_eq_ok_iff

theorem Frame.encode_of_length_gt {payload : Bytes} (h : maxPayload < payload.length) :
    Frame.encode payload = .error (.payloadTooLarge payload.length maxPayload) := by
  rw [encode, encodeWithin_eq, if_neg (not_le.mpr h)]

theorem Frame.verdict_eq_ok_iff_encode {bytes payload : Bytes} :
    verdict maxPayload bytes = .ok payload ↔ ∃ w, Frame.encode payload = .ok w ∧ w <+: bytes := by
  simp only [verdict_eq_ok_iff, Frame.encode_eq_ok_iff]
  constructor
  · rintro ⟨hsize, _, hprefix⟩
    exact ⟨_, ⟨hsize, rfl⟩, hprefix⟩
  · rintro ⟨w, ⟨hsize, rfl⟩, hprefix⟩
    exact ⟨hsize, hsize.trans_lt (by decide), hprefix⟩

/-- A payload that can be read stays so, whatever comes after it. -/
theorem Frame.verdict_of_prefix {bytes more payload : Bytes}
    (h : verdict maxPayload bytes = .ok payload) (le : bytes <+: more) :
    verdict maxPayload more = .ok payload := by
  obtain ⟨w, hw, hprefix⟩ := verdict_eq_ok_iff_encode.mp h
  exact verdict_eq_ok_iff_encode.mpr ⟨w, hw, hprefix.trans le⟩

theorem Frame.read_eq_ok_iff {reads : List Bytes} (nonempty : [] ∉ reads) {payload : Bytes} :
    (Frame.read (reads.map .bytes)).1 = .ok payload ↔
      ∃ w, Frame.encode payload = .ok w ∧ w <+: reads.flatten := by
  have hread : (Frame.read (reads.map .bytes)).1 = verdict maxPayload reads.flatten :=
    readWith_eq_verdict maxPayload nonempty
  rw [hread, verdict_eq_ok_iff_encode]

/-- A stream gives a bundle exactly if it begins with its wire image, wherever it is cut. Only the
size of the encoding keeps a bundle from having one. -/
theorem read_and_decode_eq_ok_iff_wire_image (reads : List Bytes) (nonempty : [] ∉ reads)
    (b : Bundle) :
    ((∃ payload, (Frame.read (reads.map .bytes)).1 = .ok payload ∧
        Bundle.decode payload = .ok b) ↔
      ∃ e w, b.encode = .ok e ∧ Frame.encode e = .ok w ∧ w <+: reads.flatten) ∧
    ∀ e, b.encode = .ok e →
      let n := 9 + (b.map fun p => 10 + p.data.length + p.signature.length).sum
      (n ≤ 1048576 → ∃ w, Frame.encode e = .ok w ∧ w.length = 4 + n) ∧
        (1048576 < n → Frame.encode e = .error (.payloadTooLarge n 1048576)) := by
  constructor
  · simp only [Frame.read_eq_ok_iff nonempty, Bundle.decode_eq_ok_iff_encode]
    constructor
    · rintro ⟨e, ⟨w, hw, hprefix⟩, he⟩
      exact ⟨e, w, he, hw, hprefix⟩
    · rintro ⟨e, w, he, hw, hprefix⟩
      exact ⟨e, ⟨w, hw, hprefix⟩, he⟩
  · intro e he
    obtain ⟨_, rfl⟩ := Bundle.encode_eq_ok_iff.mp he
    have hlen := Bundle.length_bytes b
    refine ⟨fun hn => ?_, fun hn => ?_⟩
    · refine ⟨_, Frame.encode_eq_ok_iff.mpr ⟨hlen ▸ hn, rfl⟩, ?_⟩
      rw [List.length_append, BigEndian.length_encode, hlen, Frame.lengthSize]
    · rw [← hlen]
      exact Frame.encode_of_length_gt (hlen ▸ hn)

/-- A piece with one byte of data and no signature, cut inside the length, with a byte after it. -/
theorem read_and_decode_cut_in_length :
    let reads : List Bytes := [[0, 0], [0, 20, 0x53, 0x45, 0x56, 0x4C, 1, 0, 0, 0, 1],
      [0, 0x20, 0, 0, 0, 1, 7, 0, 0, 0, 0, 9]]
    [] ∉ reads ∧ ∃ payload, (Frame.read (reads.map .bytes)).1 = .ok payload ∧
      Bundle.decode payload = .ok [⟨Tag.tpmQuote, [7], []⟩] := by
  refine ⟨by decide, (read_and_decode_eq_ok_iff_wire_image _ (by decide) _).1.mpr ?_⟩
  exact ⟨_, _, rfl, rfl, by decide⟩

end EvidenceExchange
