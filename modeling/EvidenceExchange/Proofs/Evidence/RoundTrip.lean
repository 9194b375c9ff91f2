import EvidenceExchange.Bytes.Lemmas
import EvidenceExchange.Evidence.Codec
import EvidenceExchange.Proofs.Checks
import Mathlib

namespace EvidenceExchange.Evidence

/-- The lengths of both fields can be written in four bytes. -/
def Piece.Fits (p : Piece) : Prop :=
  p.data.length < UInt32.size ∧ p.signature.length < UInt32.size

def Bundle.Fits (b : Bundle) : Prop :=
  b.length < UInt32.size ∧ ∀ p ∈ b, p.Fits

/-- Bytes after their length. -/
def prefixed (content : Bytes) : Bytes :=
  BigEndian.encode 4 content.length ++ content

def Piece.bytes (p : Piece) : Bytes :=
  BigEndian.encode 2 p.tag.code.toNat ++ prefixed p.data ++ prefixed p.signature

def Bundle.bytes (b : Bundle) : Bytes :=
  magic ++ encodingVersion :: BigEndian.encode 4 b.length ++ (b.map Piece.bytes).flatten

theorem Piece.length_bytes (p : Piece) :
    p.bytes.length = 10 + p.data.length + p.signature.length := by
  simp only [Piece.bytes, prefixed, List.length_append, BigEndian.length_encode]
  omega

theorem Bundle.length_bytes (b : Bundle) :
    b.bytes.length = 9 + (b.map fun p => 10 + p.data.length + p.signature.length).sum := by
  have pieces : (b.map Piece.bytes).flatten.length =
      (b.map fun p => 10 + p.data.length + p.signature.length).sum := by
    simp only [List.length_flatten, List.map_map, Function.comp_def, Piece.length_bytes]
  simp only [Bundle.bytes, magic, List.length_append, List.length_cons, List.length_nil,
    BigEndian.length_encode, pieces]

theorem encodeSize_eq_ok_iff {field : Field} {size : Nat} {x : Bytes} :
    encodeSize field size = .ok x ↔ size < UInt32.size ∧ x = BigEndian.encode 4 size := by
  unfold encodeSize
  split
  next h => simp [h, eq_comm]
  next h => simp [h]

theorem Piece.encode_eq_ok_iff {p : Piece} {x : Bytes} :
    p.encode = .ok x ↔ p.Fits ∧ x = p.bytes := by
  simp only [Piece.encode, Except.bind_eq_ok_iff, encodeSize_eq_ok_iff, Piece.Fits, Piece.bytes,
    prefixed, List.append_assoc]
  constructor
  · rintro ⟨_, ⟨hd, rfl⟩, _, ⟨hs, rfl⟩, h⟩
    exact ⟨⟨hd, hs⟩, (Except.ok.inj h).symm⟩
  · rintro ⟨⟨hd, hs⟩, rfl⟩
    exact ⟨_, ⟨hd, rfl⟩, _, ⟨hs, rfl⟩, rfl⟩

theorem mapM_encode_eq_ok_iff {b : Bundle} {xs : List Bytes} :
    b.mapM Piece.encode = .ok xs ↔ (∀ p ∈ b, p.Fits) ∧ xs = b.map Piece.bytes := by
  induction b generalizing xs with
  | nil => simp [pure, Except.pure, eq_comm]
  | cons p b ih =>
    simp only [List.mapM_cons, Except.bind_eq_ok_iff, Piece.encode_eq_ok_iff, ih,
      List.forall_mem_cons, List.map_cons]
    constructor
    · rintro ⟨_, ⟨hp, rfl⟩, _, ⟨hb, rfl⟩, h⟩
      exact ⟨⟨hp, hb⟩, (Except.ok.inj h).symm⟩
    · rintro ⟨⟨hp, hb⟩, rfl⟩
      exact ⟨_, ⟨hp, rfl⟩, _, ⟨hb, rfl⟩, rfl⟩

theorem Bundle.encode_eq_ok_iff {b : Bundle} {x : Bytes} :
    b.encode = .ok x ↔ b.Fits ∧ x = b.bytes := by
  simp only [Bundle.encode, Except.bind_eq_ok_iff, encodeSize_eq_ok_iff, mapM_encode_eq_ok_iff,
    Bundle.Fits, Bundle.bytes]
  constructor
  · rintro ⟨_, ⟨hc, rfl⟩, _, ⟨hb, rfl⟩, h⟩
    exact ⟨⟨hc, hb⟩, (Except.ok.inj h).symm⟩
  · rintro ⟨⟨hc, hb⟩, rfl⟩
    exact ⟨_, ⟨hc, rfl⟩, _, ⟨hb, rfl⟩, rfl⟩

theorem takeNumber_eq_ok_iff {width n : Nat} {field : Field} {bytes rest : Bytes} :
    takeNumber width field bytes = .ok (n, rest) ↔
      n < 256 ^ width ∧ bytes = BigEndian.encode width n ++ rest := by
  simp only [takeNumber, Except.ite_eq_ok_iff, Except.ok.injEq, Prod.mk.injEq]
  constructor
  · rintro ⟨hlen, rfl, rfl⟩
    have hw : (bytes.take width).length = width := by
      have := List.length_take_le width bytes
      omega
    have hlt := BigEndian.decode_lt (bytes.take width)
    have hdigits := BigEndian.encode_decode (bytes.take width)
    rw [hw] at hlt hdigits
    rw [hdigits]
    exact ⟨hlt, (List.take_append_drop width bytes).symm⟩
  · rintro ⟨hn, rfl⟩
    have htake : (BigEndian.encode width n ++ rest).take width = BigEndian.encode width n :=
      List.take_left' (BigEndian.length_encode width n)
    have hdrop : (BigEndian.encode width n ++ rest).drop width = rest :=
      List.drop_left' (BigEndian.length_encode width n)
    rw [htake, hdrop]
    exact ⟨by simp, BigEndian.decode_encode_of_lt hn, rfl⟩

theorem takeField_eq_ok_iff {field : Field} {content bytes rest : Bytes} :
    takeField field bytes = .ok (content, rest) ↔
      content.length < UInt32.size ∧ bytes = prefixed content ++ rest := by
  simp only [takeField, Except.bind_eq_ok_iff, Prod.exists, takeNumber_eq_ok_iff,
    Except.ite_eq_ok_iff, Except.ok.injEq, Prod.mk.injEq, prefixed]
  constructor
  · rintro ⟨size, body, ⟨hsize, rfl⟩, hlen, rfl, rfl⟩
    have hcut : (body.take size).length = size := by
      have := List.length_take_le size body
      omega
    rw [hcut, List.append_assoc, List.take_append_drop]
    exact ⟨hsize, rfl⟩
  · rintro ⟨hlen, rfl⟩
    refine ⟨content.length, content ++ rest, ⟨hlen, by rw [List.append_assoc]⟩, ?_⟩
    rw [List.take_left, List.drop_left]
    exact ⟨by omega, rfl, rfl⟩

theorem Piece.decode_eq_ok_iff {p : Piece} {bytes rest : Bytes} :
    Piece.decode bytes = .ok (p, rest) ↔ p.Fits ∧ bytes = p.bytes ++ rest := by
  simp only [Piece.decode, Except.bind_eq_ok_iff, Prod.exists, takeNumber_eq_ok_iff,
    takeField_eq_ok_iff]
  constructor
  · rintro ⟨code, _, ⟨hcode, rfl⟩, data, _, ⟨hdata, rfl⟩, signature, left, ⟨hsig, rfl⟩, h⟩
    obtain ⟨rfl, rfl⟩ := Prod.mk.inj (Except.ok.inj h)
    have hback : (UInt16.ofNat code).toNat = code := by
      simpa using Nat.mod_eq_of_lt hcode
    simp [Piece.Fits, Piece.bytes, hback, hdata, hsig]
  · rintro ⟨⟨hdata, hsig⟩, rfl⟩
    refine ⟨p.tag.code.toNat, _, ⟨p.tag.code.toNat_lt, ?_⟩, p.data, _, ⟨hdata, rfl⟩,
      p.signature, rest, ⟨hsig, rfl⟩, ?_⟩
    · simp only [Piece.bytes, List.append_assoc]
    · rw [UInt16.ofNat_toNat]
      rfl

/-- The pieces read before come first; each further one is a whole binary form. -/
theorem decodePieces_eq_ok_iff {count : Nat} {earlier : List Piece} {b : Bundle}
    {bytes rest : Bytes} :
    decodePieces count earlier bytes = .ok (b, rest) ↔
      ∃ pieces : Bundle, pieces.length = count ∧ (∀ p ∈ pieces, p.Fits) ∧
        b = earlier.reverse ++ pieces ∧ bytes = (pieces.map Piece.bytes).flatten ++ rest := by
  induction count generalizing earlier bytes with
  | zero =>
    simp only [decodePieces, Except.ok.injEq, Prod.mk.injEq]
    constructor
    · rintro ⟨rfl, rfl⟩
      exact ⟨[], rfl, by simp, by simp, by simp⟩
    · rintro ⟨pieces, hlen, _, rfl, rfl⟩
      obtain rfl := List.eq_nil_of_length_eq_zero hlen
      simp
  | succ count ih =>
    simp only [decodePieces]
    constructor
    · intro h
      split at h
      next => cases h
      next p left hp =>
        obtain ⟨hfit, rfl⟩ := Piece.decode_eq_ok_iff.mp hp
        obtain ⟨pieces, rfl, hall, rfl, rfl⟩ := ih.mp h
        exact ⟨p :: pieces, rfl, List.forall_mem_cons.mpr ⟨hfit, hall⟩, by simp, by simp⟩
    · rintro ⟨pieces, hlen, hall, rfl, rfl⟩
      cases pieces with
      | nil => simp at hlen
      | cons p pieces =>
        obtain ⟨hfit, hall⟩ := List.forall_mem_cons.mp hall
        have hp : Piece.decode (((p :: pieces).map Piece.bytes).flatten ++ rest) =
            .ok (p, (pieces.map Piece.bytes).flatten ++ rest) :=
          Piece.decode_eq_ok_iff.mpr ⟨hfit, by simp⟩
        rw [hp]
        exact ih.mpr ⟨pieces, by simpa using hlen, hall, by simp, rfl⟩

theorem takeHeader_eq_ok_iff {bytes rest : Bytes} :
    takeHeader bytes = .ok rest ↔ bytes = magic ++ encodingVersion :: rest := by
  simp only [takeHeader, Except.ite_eq_ok_iff, not_not]
  constructor
  · rintro ⟨hmagic, h⟩
    have hcut := List.take_append_drop 4 bytes
    rw [hmagic] at hcut
    split at h
    next => cases h
    next version left hdrop =>
      obtain ⟨hversion, h⟩ := Except.ite_eq_ok_iff.mp h
      rw [← hcut, hdrop, not_not.mp hversion, Except.ok.inj h]
  · rintro rfl
    exact ⟨rfl, rfl⟩

/-- The bound on the count of pieces refuses no form of a bundle, as no piece is shorter than the
least one. -/
theorem length_le_of_pieces (b : Bundle) :
    b.length ≤ (b.map Piece.bytes).flatten.length / minPieceSize := by
  have hall : ∀ x ∈ b.map Piece.bytes, minPieceSize ≤ x.length := by
    intro x hx
    obtain ⟨p, _, rfl⟩ := List.mem_map.mp hx
    rw [Piece.length_bytes, minPieceSize]
    omega
  have hsum := List.card_nsmul_le_sum (((b.map Piece.bytes).map List.length)) minPieceSize
    (by simpa using hall)
  rw [Nat.le_div_iff_mul_le (by decide), List.length_flatten]
  simpa using hsum

theorem Bundle.decode_eq_ok_iff {b : Bundle} {bytes : Bytes} :
    Bundle.decode bytes = .ok b ↔ b.Fits ∧ bytes = b.bytes := by
  simp only [Bundle.decode, Except.bind_eq_ok_iff, Prod.exists, takeHeader_eq_ok_iff,
    takeNumber_eq_ok_iff, Except.ite_eq_ok_iff, decodePieces_eq_ok_iff, List.reverse_nil,
    List.nil_append]
  constructor
  · rintro ⟨_, rfl, count, _, ⟨hcount, rfl⟩, _, _, left, ⟨pieces, rfl, hall, rfl, rfl⟩, h⟩
    split at h
    next hempty =>
      obtain rfl := Except.ok.inj h
      obtain rfl := List.isEmpty_iff.mp hempty
      exact ⟨⟨hcount, hall⟩, by simp [Bundle.bytes]⟩
    next => cases h
  · rintro ⟨⟨hcount, hall⟩, rfl⟩
    refine ⟨_, rfl, b.length, _, ⟨hcount, rfl⟩, ?_, b, [], ⟨b, rfl, hall, rfl, by simp⟩, rfl⟩
    exact not_lt.mpr (length_le_of_pieces b)

/-- Decoding accepts exactly what encoding gives. -/
theorem Bundle.decode_eq_ok_iff_encode {b : Bundle} {bytes : Bytes} :
    Bundle.decode bytes = .ok b ↔ b.encode = .ok bytes := by
  rw [Bundle.decode_eq_ok_iff, Bundle.encode_eq_ok_iff]

/-- The bound on the count of pieces is met by what follows the count in an encoding. -/
theorem Bundle.length_le_of_encode {b : Bundle} {bytes : Bytes} (h : b.encode = .ok bytes) :
    b.length ≤ (bytes.length - 9) / minPieceSize := by
  obtain ⟨-, rfl⟩ := Bundle.encode_eq_ok_iff.mp h
  have header : b.bytes.length = 9 + (b.map Piece.bytes).flatten.length := by
    simp only [Bundle.bytes, magic, List.length_append, List.length_cons, List.length_nil,
      BigEndian.length_encode]
  rw [header, Nat.add_sub_cancel_left]
  exact length_le_of_pieces b

/-- Bytes that decode are the one encoding of what they decode to: encoding gives them back, and no
other bytes decode to the same bundle. -/
theorem Bundle.encode_of_decode {bytes : Bytes} {b : Bundle} (h : Bundle.decode bytes = .ok b) :
    b.encode = .ok bytes ∧ ∀ other, Bundle.decode other = .ok b ↔ other = bytes := by
  have encoded := Bundle.decode_eq_ok_iff_encode.mp h
  refine ⟨encoded, fun other => ?_⟩
  rw [Bundle.decode_eq_ok_iff_encode, encoded, Except.ok.injEq, eq_comm]

/-- A piece of a kind without a name and without any content, and one with a signature alone. -/
theorem Bundle.encode_of_decode_unnamed :
    Bundle.encode [⟨⟨0xBEEF⟩, [], []⟩, ⟨⟨1⟩, [], [7]⟩] =
        .ok [0x53, 0x45, 0x56, 0x4C, 1, 0, 0, 0, 2,
          0xBE, 0xEF, 0, 0, 0, 0, 0, 0, 0, 0, 0, 1, 0, 0, 0, 0, 0, 0, 0, 1, 7] ∧
      ∀ other, Bundle.decode other = .ok [⟨⟨0xBEEF⟩, [], []⟩, ⟨⟨1⟩, [], [7]⟩] ↔
        other = [0x53, 0x45, 0x56, 0x4C, 1, 0, 0, 0, 2,
          0xBE, 0xEF, 0, 0, 0, 0, 0, 0, 0, 0, 0, 1, 0, 0, 0, 0, 0, 0, 0, 1, 7] :=
  Bundle.encode_of_decode (by cbv)

/-- A bundle is encoded unless a number in it needs more than four bytes, and decodes to itself. Its
encoding is long enough for the bound on the count of pieces. -/
theorem Bundle.encode_round_trip (b : Bundle) :
    ((∃ bytes, b.encode = .ok bytes) ↔
        b.length < UInt32.size ∧
          ∀ p ∈ b, p.data.length < UInt32.size ∧ p.signature.length < UInt32.size) ∧
      ∀ bytes, b.encode = .ok bytes →
        Bundle.decode bytes = .ok b ∧ b.length ≤ (bytes.length - 9) / minPieceSize := by
  constructor
  · constructor
    · rintro ⟨bytes, h⟩
      exact (Bundle.encode_eq_ok_iff.mp h).1
    · exact fun fits => ⟨b.bytes, Bundle.encode_eq_ok_iff.mpr ⟨fits, rfl⟩⟩
  · exact fun bytes h => ⟨Bundle.decode_eq_ok_iff_encode.mpr h, Bundle.length_le_of_encode h⟩

/-- The shortest piece there is stands exactly on the bound. -/
theorem Bundle.encode_round_trip_shortest :
    Bundle.decode [0x53, 0x45, 0x56, 0x4C, 1, 0, 0, 0, 1, 0, 0, 0, 0, 0, 0, 0, 0, 0, 0] =
        .ok [⟨⟨0⟩, [], []⟩] ∧ 1 ≤ (19 - 9) / minPieceSize :=
  (Bundle.encode_round_trip [⟨⟨0⟩, [], []⟩]).2
    [0x53, 0x45, 0x56, 0x4C, 1, 0, 0, 0, 1, 0, 0, 0, 0, 0, 0, 0, 0, 0, 0] rfl

end EvidenceExchange.Evidence
