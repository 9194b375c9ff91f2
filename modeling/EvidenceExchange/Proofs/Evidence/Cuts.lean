import EvidenceExchange.Proofs.Evidence.Diagnosis

namespace EvidenceExchange.Evidence

/-- The fields of a piece with their bytes, in their order. A length belongs to the field that it
announces. -/
def Piece.parts (p : Piece) : List (Field × Bytes) :=
  [(.tag, BigEndian.encode 2 p.tag.code.toNat), (.data, prefixed p.data),
    (.signature, prefixed p.signature)]

/-- The fields of all pieces. -/
def Bundle.parts (b : Bundle) : List (Field × Bytes) := b.flatMap Piece.parts

/-- The field to which the byte at a place belongs. -/
def fieldAt : List (Field × Bytes) → Nat → Option Field
  | [], _ => none
  | (field, bytes) :: later, place =>
    if place < bytes.length then some field else fieldAt later (place - bytes.length)

theorem Piece.flatMap_parts (p : Piece) : p.parts.flatMap Prod.snd = p.bytes := by
  simp [Piece.parts, Piece.bytes]

theorem Bundle.flatMap_parts (b : Bundle) :
    b.parts.flatMap Prod.snd = (b.map Piece.bytes).flatten := by
  rw [Bundle.parts, List.flatMap_assoc, ← List.flatMap_def]
  simp only [Piece.flatMap_parts]

theorem fieldAt_append (parts later : List (Field × Bytes)) (place : Nat) :
    fieldAt (parts ++ later) place =
      if place < (parts.flatMap Prod.snd).length then fieldAt parts place
      else fieldAt later (place - (parts.flatMap Prod.snd).length) := by
  induction parts generalizing place with
  | nil => simp
  | cons part parts ih =>
    obtain ⟨field, bytes⟩ := part
    rw [List.cons_append, fieldAt, fieldAt, List.flatMap_cons, List.length_append]
    by_cases here : place < bytes.length
    · rw [if_pos here, if_pos here, if_pos (Nat.lt_add_right _ here)]
    · have among : place - bytes.length < (parts.flatMap Prod.snd).length ↔
          place < bytes.length + (parts.flatMap Prod.snd).length := by omega
      rw [if_neg here, if_neg here, ih, Nat.sub_sub]
      simp only [among]

theorem length_prefixed (content : Bytes) : (prefixed content).length = 4 + content.length := by
  rw [prefixed, List.length_append, BigEndian.length_encode]

/-- A field that is cut is too short, for its own length or for what this announces. -/
theorem endsInField_take {content : Bytes} (written : content.length < UInt32.size) {place : Nat}
    (short : place < (prefixed content).length) : EndsInField ((prefixed content).take place) := by
  have length : ((prefixed content).take place).length = place := List.length_take_of_le short.le
  by_cases digits : place < 4
  · left
    rwa [length]
  · right
    have announced : ((prefixed content).take place).take 4 = BigEndian.encode 4 content.length := by
      rw [List.take_take, Nat.min_eq_left (not_lt.mp digits), prefixed]
      exact List.take_left' (BigEndian.length_encode 4 content.length)
    rw [length, announced, BigEndian.decode_encode_of_lt written, ← length_prefixed]
    exact short

theorem Piece.endsIn_take {p : Piece} (fits : p.Fits) {place : Nat} (short : place < p.bytes.length) :
    ∃ field, fieldAt p.parts place = some field ∧ Piece.EndsIn field (p.bytes.take place) := by
  have tagged : (BigEndian.encode 2 p.tag.code.toNat).length = 2 := BigEndian.length_encode 2 _
  have data := length_prefixed p.data
  have signature := length_prefixed p.signature
  have all : p.bytes =
      BigEndian.encode 2 p.tag.code.toNat ++ (prefixed p.data ++ prefixed p.signature) := by
    rw [Piece.bytes, List.append_assoc]
  by_cases inTag : place < 2
  · refine ⟨.tag, by simp only [Piece.parts, fieldAt, tagged, if_pos inTag], .tag ?_⟩
    rw [List.length_take]
    omega
  rw [all, List.take_append, List.take_of_length_le (by omega), tagged]
  by_cases inData : place - 2 < (prefixed p.data).length
  · refine ⟨.data, by simp only [Piece.parts, fieldAt, tagged, if_neg inTag, if_pos inData], ?_⟩
    rw [List.take_append_of_le_length inData.le]
    exact .data tagged (endsInField_take fits.1 inData)
  · have inSignature : place - 2 - (prefixed p.data).length < (prefixed p.signature).length := by
      rw [all, List.length_append, List.length_append] at short
      omega
    refine ⟨.signature, ?_, ?_⟩
    · simp only [Piece.parts, fieldAt, tagged, if_neg inTag, if_neg inData, if_pos inSignature]
    · rw [List.take_append, List.take_of_length_le (not_lt.mp inData), ← List.append_assoc]
      exact .signature tagged fits.1 (endsInField_take fits.2 inSignature)

/-- Where pieces are cut, whole ones come first, and then one whose bytes run out. -/
theorem exists_begins_take {b : Bundle} (fits : ∀ p ∈ b, p.Fits) {place : Nat}
    (short : place < (b.map Piece.bytes).flatten.length) :
    ∃ (pieces : Bundle) (rest : Bytes) (field : Field), pieces.length < b.length ∧
      pieces.Begins ((b.map Piece.bytes).flatten.take place) rest ∧ Piece.EndsIn field rest ∧
      fieldAt (Bundle.parts b) place = some field := by
  induction b generalizing place with
  | nil => simp at short
  | cons p b ih =>
    obtain ⟨first, others⟩ := List.forall_mem_cons.mp fits
    have parts : Bundle.parts (p :: b) = p.parts ++ Bundle.parts b := List.flatMap_cons
    rw [List.map_cons, List.flatten_cons] at short ⊢
    rw [List.length_append] at short
    rw [parts, fieldAt_append, Piece.flatMap_parts]
    -- The cut is in the first piece, or it cuts the others, so much nearer to their beginning.
    by_cases here : place < p.bytes.length
    · obtain ⟨field, named, ends⟩ := Piece.endsIn_take first here
      refine ⟨[], p.bytes.take place, field, Nat.succ_pos _, ⟨by simp, ?_⟩, ends, ?_⟩
      · rw [List.take_append_of_le_length here.le]
        rfl
      · rw [if_pos here, named]
    · obtain ⟨pieces, rest, field, fewer, begins, ends, named⟩ :=
        ih others (show place - p.bytes.length < _ by omega)
      refine ⟨p :: pieces, rest, field, Nat.succ_lt_succ fewer, ?_, ends, ?_⟩
      · rw [List.take_append, List.take_of_length_le (not_lt.mp here)]
        exact begins.cons first
      · rw [if_neg here, named]

namespace Bundle

section cut

variable {count : Nat} {body : Bytes} {k : Nat}

theorem decode_take_of_lt_four (h : k < 4) :
    Bundle.decode ((announcing count ++ body).take k) =
      .error (.invalidMagic magic ((announcing count ++ body).take k)) := by
  have short : ((announcing count ++ body).take k).length < 4 := by
    rw [List.length_take]
    omega
  have all : ((announcing count ++ body).take k).take 4 = (announcing count ++ body).take k :=
    List.take_of_length_le short.le
  have differs : ((announcing count ++ body).take k).take 4 ≠ magic := by
    rw [all]
    intro same
    rw [same] at short
    exact absurd short (by decide)
  have refused := decode_of_wrong_magic differs
  rwa [all] at refused

theorem decode_take_four : Bundle.decode ((announcing count ++ body).take 4) = .error (.truncated .version) :=
  rfl

theorem decode_take_of_lt_nine (version : 4 < k) (h : k < 9) :
    Bundle.decode ((announcing count ++ body).take k) = .error (.truncated .pieceCount) := by
  obtain ⟨digits, rfl⟩ := Nat.exists_eq_add_of_lt version
  have cut : (announcing count ++ body).take (4 + digits + 1) =
      magic ++ encodingVersion :: (BigEndian.encode 4 count ++ body).take digits := by
    rw [show 4 + digits + 1 = digits + 5 by omega]
    rfl
  rw [cut]
  refine decode_of_short_count ?_
  rw [List.length_take]
  omega

theorem take_announcing (h : 9 ≤ k) :
    (announcing count ++ body).take k = announcing count ++ body.take (k - 9) := by
  have length := length_announcing count
  rw [List.take_append, List.take_of_length_le (by omega), length]

end cut

theorem bytes_eq_announcing (b : Bundle) :
    b.bytes = announcing b.length ++ (b.map Piece.bytes).flatten := rfl

variable {b : Bundle} {k : Nat}

theorem decode_take_of_overflow (fits : b.Fits) (within : k < b.bytes.length) (counted : 9 ≤ k)
    (exceeds : (k - 9) / 10 < b.length) :
    Bundle.decode (b.bytes.take k) = .error (.pieceCountOverflow b.length (k - 9)) := by
  have left : ((b.map Piece.bytes).flatten.take (k - 9)).length = k - 9 := by
    rw [bytes_eq_announcing, List.length_append, length_announcing] at within
    rw [List.length_take]
    omega
  have above : ((b.map Piece.bytes).flatten.take (k - 9)).length / minPieceSize < b.length := by
    rwa [left]
  have refused := decode_of_overflow fits.1 above
  rwa [left, ← take_announcing counted] at refused

theorem decode_take_of_bounded (fits : b.Fits) (within : k < b.bytes.length) (counted : 9 ≤ k)
    (bounded : b.length ≤ (k - 9) / 10) :
    ∃ field, fieldAt b.parts (k - 9) = some field ∧
      Bundle.decode (b.bytes.take k) = .error (.truncated field) := by
  have short : k - 9 < (b.map Piece.bytes).flatten.length := by
    rw [bytes_eq_announcing, List.length_append, length_announcing] at within
    omega
  have left : ((b.map Piece.bytes).flatten.take (k - 9)).length = k - 9 :=
    List.length_take_of_le short.le
  obtain ⟨pieces, rest, field, fewer, begins, ends, place⟩ := exists_begins_take fits.2 short
  refine ⟨field, place, ?_⟩
  rw [bytes_eq_announcing, take_announcing counted]
  exact decode_eq_error_iff.mpr (.piece fits.1 (by rwa [left]) begins fewer ends)

/-- An encoding that is cut does not decode, and nothing is left of it. -/
theorem decode_take_refused (fits : b.Fits) (within : k < b.bytes.length) :
    ∃ e, Bundle.decode (b.bytes.take k) = .error e ∧ ∀ t, e ≠ .trailingBytes t := by
  by_cases magic : k < 4
  · exact ⟨_, decode_take_of_lt_four magic, nofun⟩
  by_cases version : k = 4
  · subst version
    exact ⟨_, decode_take_four, nofun⟩
  by_cases counted : k < 9
  · exact ⟨_, decode_take_of_lt_nine (by omega) counted, nofun⟩
  by_cases exceeds : (k - 9) / 10 < b.length
  · exact ⟨_, decode_take_of_overflow fits within (not_lt.mp counted) exceeds, nofun⟩
  · obtain ⟨field, -, refused⟩ :=
      decode_take_of_bounded fits within (not_lt.mp counted) (not_lt.mp exceeds)
    exact ⟨_, refused, nofun⟩

theorem decode_append (fits : b.Fits) {t : Bytes} (more : t ≠ []) :
    Bundle.decode (b.bytes ++ t) = .error (.trailingBytes t.length) := by
  rw [bytes_eq_announcing, List.append_assoc]
  exact decode_of_trailing fits.1 ⟨fits.2, rfl⟩ more

/-- No encoding begins another one, and an encoding that is cut is refused for its magic, its version, its
count, a count that the bytes left cannot hold, or the field to which the first byte that is missing
belongs. -/
theorem decode_of_cut {b : Bundle} {x : Bytes} (encoded : b.encode = .ok x) :
    x.drop 9 = b.parts.flatMap Prod.snd ∧
    (∀ t, t ≠ [] → Bundle.decode (x ++ t) = .error (.trailingBytes t.length)) ∧
    (∀ (other : Bundle) (y : Bytes), other.encode = .ok y → x <+: y → y = x ∧ other = b) ∧
    ∀ k, k < x.length →
      (k < 4 → Bundle.decode (x.take k) = .error (.invalidMagic magic (x.take k))) ∧
      (k = 4 → Bundle.decode (x.take k) = .error (.truncated .version)) ∧
      (4 < k → k < 9 → Bundle.decode (x.take k) = .error (.truncated .pieceCount)) ∧
      (9 ≤ k → (k - 9) / 10 < b.length →
        Bundle.decode (x.take k) = .error (.pieceCountOverflow b.length (k - 9))) ∧
      (9 ≤ k → b.length ≤ (k - 9) / 10 → ∃ field, fieldAt b.parts (k - 9) = some field ∧
        Bundle.decode (x.take k) = .error (.truncated field)) ∧
      (∀ b', Bundle.decode (x.take k) ≠ .ok b') ∧
      ∀ t, Bundle.decode (x.take k) ≠ .error (.trailingBytes t) := by
  obtain ⟨fits, rfl⟩ := Bundle.encode_eq_ok_iff.mp encoded
  refine ⟨?_, fun t more => decode_append fits more, ?_, fun k within => ?_⟩
  · rw [Bundle.flatMap_parts, bytes_eq_announcing, List.drop_left' (length_announcing _)]
  · rintro other y written ⟨t, rfl⟩
    have decoded := Bundle.decode_eq_ok_iff_encode.mpr written
    have ended : t = [] := by
      by_contra more
      cases decoded.symm.trans (decode_append fits more)
    subst ended
    rw [List.append_nil] at decoded ⊢
    exact ⟨rfl, Except.ok.inj (decoded.symm.trans (Bundle.decode_eq_ok_iff_encode.mpr encoded))⟩
  · obtain ⟨e, refused, other⟩ := decode_take_refused fits within
    refine ⟨decode_take_of_lt_four, ?_, decode_take_of_lt_nine, decode_take_of_overflow fits within,
      decode_take_of_bounded fits within, ?_, ?_⟩
    · rintro rfl
      exact decode_take_four
    · intro b' decoded
      cases decoded.symm.trans refused
    · intro t trailing
      exact other t (Except.error.inj (refused.symm.trans trailing))

/-- A piece with six bytes of data, cut in front of the last of them and right after it: the next byte then
belongs to the length of the signature. -/
theorem decode_of_cut_around_last_data :
    let b : Bundle := [⟨Tag.tpmQuote, [1, 2, 3, 4, 5, 6], [7]⟩]
    let x : Bytes := [0x53, 0x45, 0x56, 0x4C, 1, 0, 0, 0, 1,
      0, 0x20, 0, 0, 0, 6, 1, 2, 3, 4, 5, 6, 0, 0, 0, 1, 7]
    b.encode = .ok x ∧
      Bundle.decode (x.take 18) = .error (.pieceCountOverflow 1 9) ∧
      Bundle.decode (x.take 20) = .error (.truncated .data) ∧
      Bundle.decode (x.take 21) = .error (.truncated .signature) ∧
      Bundle.decode (x ++ [0, 0]) = .error (.trailingBytes 2) := by
  intro b x
  have encoded : b.encode = .ok x := by cbv
  obtain ⟨-, longer, -, cut⟩ := decode_of_cut encoded
  obtain ⟨-, -, -, overflow, -⟩ := cut 18 (by decide)
  obtain ⟨-, -, -, -, inData, -⟩ := cut 20 (by decide)
  obtain ⟨-, -, -, -, afterData, -⟩ := cut 21 (by decide)
  refine ⟨encoded, overflow (by decide) (by decide), ?_, ?_, longer [0, 0] (by decide)⟩
  · obtain ⟨field, place, refused⟩ := inData (by decide) (by decide)
    have data : fieldAt b.parts 11 = some .data := by decide
    cases place.symm.trans data
    exact refused
  · obtain ⟨field, place, refused⟩ := afterData (by decide) (by decide)
    have signature : fieldAt b.parts 12 = some .signature := by decide
    cases place.symm.trans signature
    exact refused

end Bundle

end EvidenceExchange.Evidence
