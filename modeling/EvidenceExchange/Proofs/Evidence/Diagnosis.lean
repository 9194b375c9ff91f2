import EvidenceExchange.Proofs.Evidence.RoundTrip
import EvidenceExchange.Proofs.Evidence.Scan

namespace EvidenceExchange.Evidence

/-- Some bytes are too few for the field that they begin with: they end in its length, or before all the
bytes that this announces. -/
def EndsInField (bytes : Bytes) : Prop :=
  bytes.length < 4 ∨ bytes.length < 4 + BigEndian.decode (bytes.take 4)

/-- The field in which the bytes of a piece run out. A length belongs to the field that it announces. -/
inductive Piece.EndsIn : Field → Bytes → Prop where
  | tag {bytes : Bytes} (short : bytes.length < 2) : EndsIn .tag bytes
  | data {tag bytes : Bytes} (tagged : tag.length = 2) (short : EndsInField bytes) :
      EndsIn .data (tag ++ bytes)
  | signature {tag data bytes : Bytes} (tagged : tag.length = 2) (written : data.length < UInt32.size)
      (short : EndsInField bytes) : EndsIn .signature (tag ++ prefixed data ++ bytes)

theorem takeNumber_eq_error_iff {width : Nat} {field : Field} {bytes : Bytes} {e : CodecError} :
    takeNumber width field bytes = .error e ↔ bytes.length < width ∧ e = .truncated field := by
  have short : (bytes.take width).length < width ↔ bytes.length < width := by
    rw [List.length_take]
    omega
  simp only [takeNumber, Except.ite_eq_error_iff, short]

theorem takeField_eq_error_iff {field : Field} {bytes : Bytes} {e : CodecError} :
    takeField field bytes = .error e ↔ EndsInField bytes ∧ e = .truncated field := by
  simp only [takeField, Except.bind_eq_error_iff, Prod.exists, takeNumber_eq_error_iff,
    takeNumber_eq_ok_iff, Except.ite_eq_error_iff]
  constructor
  · rintro (⟨short, rfl⟩ | ⟨size, rest, ⟨hsize, rfl⟩, short, rfl⟩)
    · exact ⟨.inl short, rfl⟩
    · have length : (BigEndian.encode 4 size).length = 4 := BigEndian.length_encode 4 size
      refine ⟨.inr ?_, rfl⟩
      rw [List.length_take] at short
      rw [List.length_append, List.take_left' length, BigEndian.decode_encode_of_lt hsize, length]
      omega
  · rintro ⟨short, rfl⟩
    by_cases none : bytes.length < 4
    · exact .inl ⟨none, rfl⟩
    · have missing := short.resolve_left none
      have number : takeNumber 4 field bytes = .ok (BigEndian.decode (bytes.take 4), bytes.drop 4) := by
        have enough : ¬(bytes.take 4).length < 4 := by
          rw [List.length_take]
          omega
        simp only [takeNumber, if_neg enough]
      obtain ⟨hsize, split⟩ := takeNumber_eq_ok_iff.mp number
      refine .inr ⟨_, _, ⟨hsize, split⟩, ?_, rfl⟩
      rw [List.length_take, List.length_drop]
      omega

/-- A piece is refused in no case but this: its bytes run out, in the field that the error names. -/
theorem Piece.decode_eq_error_iff {bytes : Bytes} {e : CodecError} :
    Piece.decode bytes = .error e ↔ ∃ field, Piece.EndsIn field bytes ∧ e = .truncated field := by
  simp only [Piece.decode, Except.bind_eq_error_iff, Prod.exists, takeNumber_eq_error_iff,
    takeNumber_eq_ok_iff, takeField_eq_error_iff, takeField_eq_ok_iff]
  constructor
  · intro h
    rcases h with ⟨short, rfl⟩ | ⟨code, _, ⟨_, rfl⟩, h⟩
    · exact ⟨.tag, .tag short, rfl⟩
    have tagged : (BigEndian.encode 2 code).length = 2 := BigEndian.length_encode 2 code
    rcases h with ⟨short, rfl⟩ | ⟨data, _, ⟨written, rfl⟩, h⟩
    · exact ⟨.data, .data tagged short, rfl⟩
    rcases h with ⟨short, rfl⟩ | ⟨_, _, _, h⟩
    · refine ⟨.signature, ?_, rfl⟩
      rw [← List.append_assoc]
      exact .signature tagged written short
    · cases h
  · rintro ⟨field, ends, rfl⟩
    cases ends with
    | tag short => exact .inl ⟨short, rfl⟩
    | data tagged short =>
      obtain ⟨code, hcode, rfl⟩ := BigEndian.exists_encode tagged
      exact .inr ⟨code, _, ⟨hcode, rfl⟩, .inl ⟨short, rfl⟩⟩
    | @signature tag data rest tagged written short =>
      obtain ⟨code, hcode, rfl⟩ := BigEndian.exists_encode tagged
      refine .inr ⟨code, prefixed data ++ rest, ⟨hcode, ?_⟩, .inr ⟨data, rest, ⟨written, rfl⟩, ?_⟩⟩
      · rw [List.append_assoc]
      · exact .inl ⟨short, rfl⟩

/-- Some bytes begin with whole pieces, and the rest follows these. -/
structure Bundle.Begins (pieces : Bundle) (bytes rest : Bytes) : Prop where
  fits : ∀ p ∈ pieces, p.Fits
  bytes_eq : bytes = (pieces.map Piece.bytes).flatten ++ rest

theorem Bundle.Begins.cons {p : Piece} {pieces : Bundle} {bytes rest : Bytes} (fits : p.Fits)
    (begins : pieces.Begins bytes rest) : Bundle.Begins (p :: pieces) (p.bytes ++ bytes) rest := by
  refine ⟨List.forall_mem_cons.mpr ⟨fits, begins.fits⟩, ?_⟩
  rw [begins.bytes_eq, List.map_cons, List.flatten_cons, List.append_assoc]

theorem decodePieces_eq_error_iff {count : Nat} {earlier : List Piece} {bytes : Bytes}
    {e : CodecError} :
    decodePieces count earlier bytes = .error e ↔
      ∃ (pieces : Bundle) (rest : Bytes) (field : Field), pieces.length < count ∧
        pieces.Begins bytes rest ∧ Piece.EndsIn field rest ∧ e = .truncated field := by
  -- On the pieces that are still to be read: those read earlier have no part in where the bytes run out.
  induction count generalizing earlier bytes with
  | zero => simp [decodePieces]
  | succ count ih =>
    simp only [decodePieces]
    constructor
    · intro h
      split at h
      next d failed =>
        obtain ⟨field, ends, rfl⟩ := Piece.decode_eq_error_iff.mp failed
        refine ⟨[], bytes, field, Nat.succ_pos count, ⟨by simp, by simp⟩, ends, ?_⟩
        exact (Except.error.inj h).symm
      next p rest decoded =>
        obtain ⟨fits, rfl⟩ := Piece.decode_eq_ok_iff.mp decoded
        obtain ⟨pieces, left, field, fewer, begins, ends, rfl⟩ := ih.mp h
        exact ⟨p :: pieces, left, field, Nat.succ_lt_succ fewer, begins.cons fits, ends, rfl⟩
    · rintro ⟨pieces, rest, field, fewer, begins, ends, rfl⟩
      cases pieces with
      | nil =>
        have failed : Piece.decode bytes = .error (.truncated field) := by
          rw [begins.bytes_eq]
          exact Piece.decode_eq_error_iff.mpr ⟨field, ends, rfl⟩
        rw [failed]
      | cons p pieces =>
        obtain ⟨fits, others⟩ := List.forall_mem_cons.mp begins.fits
        have decoded : Piece.decode bytes = .ok (p, (pieces.map Piece.bytes).flatten ++ rest) := by
          refine Piece.decode_eq_ok_iff.mpr ⟨fits, ?_⟩
          rw [begins.bytes_eq, List.map_cons, List.flatten_cons, List.append_assoc]
        rw [decoded]
        exact ih.mpr ⟨pieces, rest, field, Nat.lt_of_succ_lt_succ fewer, ⟨others, rfl⟩, ends, rfl⟩

/-- What stands before the pieces. -/
def announcing (count : Nat) : Bytes := magic ++ encodingVersion :: BigEndian.encode 4 count

/-- The first check, in the order of the bytes, that some bytes fail, as the error of it. -/
inductive Bundle.Flaw : Bytes → CodecError → Prop where
  | magic {bytes : Bytes} (differs : bytes.take 4 ≠ magic) :
      Flaw bytes (.invalidMagic magic (bytes.take 4))
  | version : Flaw Evidence.magic (.truncated .version)
  | unsupported {version : UInt8} {rest : Bytes} (other : version ≠ encodingVersion) :
      Flaw (Evidence.magic ++ version :: rest) (.unsupportedVersion version)
  | pieceCount {rest : Bytes} (short : rest.length < 4) :
      Flaw (Evidence.magic ++ encodingVersion :: rest) (.truncated .pieceCount)
  | overflow {count : Nat} {body : Bytes} (written : count < UInt32.size)
      (exceeds : body.length / minPieceSize < count) :
      Flaw (announcing count ++ body) (.pieceCountOverflow count body.length)
  | piece {count : Nat} {pieces : Bundle} {body rest : Bytes} {field : Field}
      (written : count < UInt32.size) (bounded : count ≤ body.length / minPieceSize)
      (begins : pieces.Begins body rest) (fewer : pieces.length < count)
      (ends : Piece.EndsIn field rest) : Flaw (announcing count ++ body) (.truncated field)
  | trailing {pieces : Bundle} {body rest : Bytes} (written : pieces.length < UInt32.size)
      (begins : pieces.Begins body rest) (more : rest ≠ []) :
      Flaw (announcing pieces.length ++ body) (.trailingBytes rest.length)

theorem eq_magic_append {bytes : Bytes} (h : bytes.take 4 = magic) : bytes = magic ++ bytes.drop 4 := by
  rw [← h, List.take_append_drop]

theorem header_cases (bytes : Bytes) :
    bytes.take 4 ≠ magic ∨ bytes = magic ∨
      (∃ version rest, version ≠ encodingVersion ∧ bytes = magic ++ version :: rest) ∨
      (∃ rest, rest.length < 4 ∧ bytes = magic ++ encodingVersion :: rest) ∨
      ∃ count body, count < UInt32.size ∧ bytes = announcing count ++ body := by
  by_cases begins : bytes.take 4 = magic
  · have split := eq_magic_append begins
    cases after : bytes.drop 4 with
    | nil =>
      rw [after, List.append_nil] at split
      exact .inr (.inl split)
    | cons version rest =>
      rw [after] at split
      by_cases supported : version = encodingVersion
      · subst supported
        by_cases short : rest.length < 4
        · exact .inr (.inr (.inr (.inl ⟨rest, short, split⟩)))
        · have digits : (rest.take 4).length = 4 := by
            rw [List.length_take]
            omega
          obtain ⟨count, written, hcount⟩ := BigEndian.exists_encode digits
          refine .inr (.inr (.inr (.inr ⟨count, rest.drop 4, written, ?_⟩)))
          rw [split, announcing, List.append_assoc, List.cons_append, ← hcount, List.take_append_drop]
      · exact .inr (.inr (.inl ⟨version, rest, supported, split⟩))
  · exact .inl begins

namespace Bundle

theorem decode_of_wrong_magic {bytes : Bytes} (differs : bytes.take 4 ≠ magic) :
    Bundle.decode bytes = .error (.invalidMagic magic (bytes.take 4)) := by
  have refused : takeHeader bytes = .error (.invalidMagic magic (bytes.take 4)) := by
    rw [takeHeader, if_pos differs]
  simp only [Bundle.decode, refused]
  rfl

theorem decode_of_wrong_version {version : UInt8} (rest : Bytes) (other : version ≠ encodingVersion) :
    Bundle.decode (magic ++ version :: rest) = .error (.unsupportedVersion version) := by
  have refused : takeHeader (magic ++ version :: rest) = .error (.unsupportedVersion version) := by
    change (if version ≠ encodingVersion then _ else _) = _
    rw [if_pos other]
  simp only [Bundle.decode, refused]
  rfl

theorem decode_of_header (rest : Bytes) :
    Bundle.decode (magic ++ encodingVersion :: rest) = (do
      let (count, rest) ← takeNumber 4 .pieceCount rest
      if count > rest.length / minPieceSize then .error (.pieceCountOverflow count rest.length)
      else
        let (bundle, rest) ← decodePieces count [] rest
        if rest.isEmpty then .ok bundle else .error (.trailingBytes rest.length)) := rfl

theorem decode_of_short_count {rest : Bytes} (short : rest.length < 4) :
    Bundle.decode (magic ++ encodingVersion :: rest) = .error (.truncated .pieceCount) := by
  have refused : takeNumber 4 .pieceCount rest = .error (.truncated .pieceCount) :=
    takeNumber_eq_error_iff.mpr ⟨short, rfl⟩
  rw [decode_of_header, refused]
  rfl

variable {count : Nat} {body : Bytes}

theorem decode_announcing (written : count < UInt32.size) :
    Bundle.decode (announcing count ++ body) =
      if body.length / minPieceSize < count then .error (.pieceCountOverflow count body.length)
      else decodePieces count [] body >>= fun (bundle, rest) =>
        if rest.isEmpty then .ok bundle else .error (.trailingBytes rest.length) := by
  have taken : takeNumber 4 .pieceCount (BigEndian.encode 4 count ++ body) = .ok (count, body) :=
    takeNumber_eq_ok_iff.mpr ⟨written, rfl⟩
  rw [announcing, List.append_assoc, List.cons_append, decode_of_header, taken]
  rfl

theorem decode_of_overflow (written : count < UInt32.size) (exceeds : body.length / minPieceSize < count) :
    Bundle.decode (announcing count ++ body) = .error (.pieceCountOverflow count body.length) := by
  rw [decode_announcing written, if_pos exceeds]

theorem decode_of_bounded (written : count < UInt32.size) (bounded : count ≤ body.length / minPieceSize) :
    Bundle.decode (announcing count ++ body) =
      decodePieces count [] body >>= fun (bundle, rest) =>
        if rest.isEmpty then .ok bundle else .error (.trailingBytes rest.length) := by
  rw [decode_announcing written, if_neg (not_lt.mpr bounded)]

/-- Whole pieces are no fewer than the bytes can hold. -/
theorem Begins.length_le {pieces : Bundle} {rest : Bytes} (begins : pieces.Begins body rest) :
    pieces.length ≤ body.length / minPieceSize := by
  refine (length_le_of_pieces pieces).trans (Nat.div_le_div_right ?_)
  rw [begins.bytes_eq, List.length_append]
  exact Nat.le_add_right ..

theorem decode_of_trailing {pieces : Bundle} {rest : Bytes} (written : pieces.length < UInt32.size)
    (begins : pieces.Begins body rest) (more : rest ≠ []) :
    Bundle.decode (announcing pieces.length ++ body) = .error (.trailingBytes rest.length) := by
  have decoded : decodePieces pieces.length [] body = .ok (pieces, rest) :=
    decodePieces_eq_ok_iff.mpr ⟨pieces, rfl, begins.fits, rfl, begins.bytes_eq⟩
  rw [decode_of_bounded written begins.length_le, decoded]
  change (if rest.isEmpty then _ else _) = _
  rw [if_neg (by simpa using more)]

/-- Decoding fails with the error of the first check that fails. -/
theorem decode_eq_error_iff {bytes : Bytes} {e : CodecError} :
    Bundle.decode bytes = .error e ↔ Flaw bytes e := by
  constructor
  · intro h
    rcases header_cases bytes with differs | rfl | ⟨version, rest, other, rfl⟩ | ⟨rest, short, rfl⟩ |
      ⟨count, body, written, rfl⟩
    · rw [decode_of_wrong_magic differs] at h
      exact Except.error.inj h ▸ .magic differs
    · exact Except.error.inj h ▸ .version
    · rw [decode_of_wrong_version rest other] at h
      exact Except.error.inj h ▸ .unsupported other
    · rw [decode_of_short_count short] at h
      exact Except.error.inj h ▸ .pieceCount short
    · by_cases bounded : count ≤ body.length / minPieceSize
      · rw [decode_of_bounded written bounded] at h
        rcases Except.bind_eq_error_iff.mp h with failed | ⟨⟨bundle, rest⟩, decoded, left⟩
        · obtain ⟨pieces, rest, field, fewer, begins, ends, rfl⟩ := decodePieces_eq_error_iff.mp failed
          exact .piece written bounded begins fewer ends
        · obtain ⟨pieces, rfl, fits, -, bytes⟩ := decodePieces_eq_ok_iff.mp decoded
          change (if rest.isEmpty then _ else _) = _ at left
          split at left
          next => cases left
          next more =>
            rw [← Except.error.inj left]
            exact .trailing written ⟨fits, bytes⟩ (by simpa using more)
      · have exceeds := not_le.mp bounded
        rw [decode_of_overflow written exceeds] at h
        exact Except.error.inj h ▸ .overflow written exceeds
  · intro flaw
    cases flaw with
    | magic differs => exact decode_of_wrong_magic differs
    | version => rfl
    | unsupported other => exact decode_of_wrong_version _ other
    | pieceCount short => exact decode_of_short_count short
    | overflow written exceeds => exact decode_of_overflow written exceeds
    | piece written bounded begins fewer ends =>
      have failed : decodePieces _ [] _ = .error _ :=
        decodePieces_eq_error_iff.mpr ⟨_, _, _, fewer, begins, ends, rfl⟩
      rw [decode_of_bounded written bounded, failed]
      rfl
    | trailing written begins more => exact decode_of_trailing written begins more

end Bundle

theorem length_announcing (count : Nat) : (announcing count).length = 9 := by
  simp only [announcing, magic, List.length_append, List.length_cons, List.length_nil,
    BigEndian.length_encode]

/-- Some bytes have the magic, the version and all of a count. -/
def HasHeader (bytes : Bytes) : Prop := bytes.take 5 = magic ++ [encodingVersion] ∧ 9 ≤ bytes.length

def announcedCount (bytes : Bytes) : Nat := BigEndian.decode ((bytes.drop 5).take 4)

theorem header_announcing {count : Nat} (written : count < UInt32.size) (body : Bytes) :
    HasHeader (announcing count ++ body) ∧ announcedCount (announcing count ++ body) = count ∧
      (announcing count ++ body).drop 9 = body ∧ (announcing count ++ body).length - 9 = body.length := by
  have digits : (BigEndian.encode 4 count).length = 4 := BigEndian.length_encode 4 count
  have length := length_announcing count
  have dropped : (announcing count ++ body).drop 5 = BigEndian.encode 4 count ++ body := rfl
  refine ⟨⟨rfl, ?_⟩, ?_, List.drop_left' length, ?_⟩
  · rw [List.length_append]
    omega
  · rw [announcedCount, dropped, List.take_left' digits, BigEndian.decode_encode_of_lt written]
  · rw [List.length_append]
    omega

theorem HasHeader.eq_announcing {bytes : Bytes} (header : HasHeader bytes) :
    announcedCount bytes < UInt32.size ∧
      bytes = announcing (announcedCount bytes) ++ bytes.drop 9 := by
  obtain ⟨begins, long⟩ := header
  have digits : ((bytes.drop 5).take 4).length = 4 := by
    rw [List.length_take, List.length_drop]
    omega
  have written := BigEndian.decode_lt ((bytes.drop 5).take 4)
  have count := BigEndian.encode_decode ((bytes.drop 5).take 4)
  rw [digits] at written count
  refine ⟨written, ?_⟩
  calc bytes = bytes.take 5 ++ ((bytes.drop 5).take 4 ++ (bytes.drop 5).drop 4) := by
        rw [List.take_append_drop, List.take_append_drop]
    _ = announcing (announcedCount bytes) ++ bytes.drop 9 := by
        rw [begins, List.drop_drop, announcing, announcedCount, count, List.append_assoc, List.append_assoc]
        rfl

namespace Bundle

theorem decode_eq_overflow_iff {bytes : Bytes} {count left : Nat} :
    Bundle.decode bytes = .error (.pieceCountOverflow count left) ↔
      HasHeader bytes ∧ (bytes.length - 9) / 10 < announcedCount bytes ∧
        count = announcedCount bytes ∧ left = bytes.length - 9 := by
  constructor
  · intro h
    cases Bundle.decode_eq_error_iff.mp h with
    | @overflow count body written exceeds =>
      obtain ⟨header, counted, -, length⟩ := header_announcing written body
      rw [counted, length]
      exact ⟨header, exceeds, rfl, rfl⟩
  · rintro ⟨header, exceeds, rfl, rfl⟩
    obtain ⟨written, split⟩ := header.eq_announcing
    have above : (bytes.drop 9).length / minPieceSize < announcedCount bytes := by
      rwa [List.length_drop]
    have refused := decode_of_overflow written above
    rwa [← split, List.length_drop] at refused

theorem decode_eq_trailing_iff {bytes : Bytes} {left : Nat} :
    Bundle.decode bytes = .error (.trailingBytes left) ↔
      HasHeader bytes ∧ 0 < left ∧ ∃ (pieces : Bundle) (rest : Bytes),
        pieces.length = announcedCount bytes ∧ pieces.Begins (bytes.drop 9) rest ∧ rest.length = left := by
  constructor
  · intro h
    cases Bundle.decode_eq_error_iff.mp h with
    | @trailing pieces body rest written begins more =>
      obtain ⟨header, counted, dropped, -⟩ := header_announcing written body
      refine ⟨header, List.length_pos_iff.mpr more, pieces, rest, counted.symm, ?_, rfl⟩
      rw [dropped]
      exact begins
  · rintro ⟨header, more, pieces, rest, counted, begins, rfl⟩
    obtain ⟨written, split⟩ := header.eq_announcing
    rw [← counted] at written split
    rw [split]
    exact decode_of_trailing written begins (List.length_pos_iff.mp more)

/-- The bytes after a count that they can hold are whole pieces, as many as the count says, or they run
out in a field of an earlier piece. -/
theorem decode_cases {bytes : Bytes} (header : HasHeader bytes)
    (bounded : announcedCount bytes ≤ (bytes.length - 9) / 10) :
    ∃ (pieces : Bundle) (rest : Bytes), pieces.Begins (bytes.drop 9) rest ∧
      (pieces.length < announcedCount bytes ∧ (∃ field, Piece.EndsIn field rest ∧
          Bundle.decode bytes = .error (.truncated field)) ∨
        pieces.length = announcedCount bytes ∧ (rest = [] ∧ Bundle.decode bytes = .ok pieces ∨
          rest ≠ [] ∧ Bundle.decode bytes = .error (.trailingBytes rest.length))) := by
  obtain ⟨written, split⟩ := header.eq_announcing
  have within : announcedCount bytes ≤ (bytes.drop 9).length / minPieceSize := by
    rwa [List.length_drop]
  have decoded := decode_of_bounded written within
  rw [← split] at decoded
  cases read : decodePieces (announcedCount bytes) [] (bytes.drop 9) with
  | error e =>
    obtain ⟨pieces, rest, field, fewer, begins, ends, rfl⟩ := decodePieces_eq_error_iff.mp read
    rw [read] at decoded
    exact ⟨pieces, rest, begins, .inl ⟨fewer, field, ends, decoded⟩⟩
  | ok found =>
    obtain ⟨b, rest⟩ := found
    obtain ⟨_, counted, fits, rfl, after⟩ := decodePieces_eq_ok_iff.mp read
    rw [read] at decoded
    refine ⟨b, rest, ⟨fits, after⟩, .inr ⟨counted, ?_⟩⟩
    cases rest with
    | nil => exact .inl ⟨rfl, decoded⟩
    | cons byte rest => exact .inr ⟨List.cons_ne_nil byte rest, decoded⟩

/-- Bytes that are no encoding are refused for the first thing that is wrong with them, in their order: the
magic, the version, the count, a count that they cannot hold, the field in which they run out, or bytes
that are left. Nothing is read beyond them. -/
theorem decode_diagnosis (x : Bytes) (foreign : ∀ b : Bundle, b.encode ≠ .ok x) :
    (∃ e, Bundle.decode x = .error e) ∧
    (x.take 4 ≠ magic →
      Bundle.decode x = .error (.invalidMagic magic (x.take (min 4 x.length)))) ∧
    (x.take 4 = magic → x.length = 4 → Bundle.decode x = .error (.truncated .version)) ∧
    (x.take 4 = magic → ∀ version, x[4]? = some version → version ≠ encodingVersion →
      Bundle.decode x = .error (.unsupportedVersion version)) ∧
    (x.take 5 = magic ++ [encodingVersion] → x.length < 9 →
      Bundle.decode x = .error (.truncated .pieceCount)) ∧
    (∀ count left, Bundle.decode x = .error (.pieceCountOverflow count left) ↔
      HasHeader x ∧ (x.length - 9) / 10 < announcedCount x ∧
        count = announcedCount x ∧ left = x.length - 9) ∧
    (HasHeader x → announcedCount x ≤ (x.length - 9) / 10 →
      ∃ (pieces : Bundle) (rest : Bytes), pieces.Begins (x.drop 9) rest ∧
        (pieces.length < announcedCount x ∧ (∃ field, Piece.EndsIn field rest ∧
            Bundle.decode x = .error (.truncated field)) ∨
          pieces.length = announcedCount x ∧ rest ≠ [] ∧
            Bundle.decode x = .error (.trailingBytes rest.length))) ∧
    (∀ left, Bundle.decode x = .error (.trailingBytes left) ↔
      HasHeader x ∧ 0 < left ∧ ∃ (pieces : Bundle) (rest : Bytes),
        pieces.length = announcedCount x ∧ pieces.Begins (x.drop 9) rest ∧ rest.length = left) ∧
    (Scan.bundle x).run = some (Bundle.decode x) := by
  have refused : ∀ b, Bundle.decode x ≠ .ok b :=
    fun b decoded => foreign b (Bundle.decode_eq_ok_iff_encode.mp decoded)
  refine ⟨?_, fun differs => ?_, fun begins length => ?_, fun begins version fifth other => ?_,
    fun begins short => ?_, fun _ _ => decode_eq_overflow_iff, fun header bounded => ?_,
    fun _ => decode_eq_trailing_iff, Scan.run_bundle x⟩
  · cases decoded : Bundle.decode x with
    | error e => exact ⟨e, rfl⟩
    | ok b => exact absurd decoded (refused b)
  · have first : x.take (min 4 x.length) = x.take 4 := (List.take_eq_take_min ..).symm
    rw [first]
    exact decode_of_wrong_magic differs
  · have split := eq_magic_append begins
    rw [List.drop_of_length_le length.le, List.append_nil] at split
    rw [split]
    rfl
  · have split := eq_magic_append begins
    obtain ⟨long, fifth⟩ := List.getElem?_eq_some_iff.mp fifth
    rw [List.drop_eq_getElem_cons long, fifth] at split
    rw [split]
    exact decode_of_wrong_version _ other
  · have split := List.take_append_drop 5 x
    rw [begins, List.append_assoc] at split
    have rest : (x.drop 5).length < 4 := by
      rw [List.length_drop]
      omega
    rw [← split]
    exact decode_of_short_count rest
  · obtain ⟨pieces, rest, begins, fewer | ⟨counted, ⟨-, decoded⟩ | trailing⟩⟩ := decode_cases header bounded
    · exact ⟨pieces, rest, begins, .inl fewer⟩
    · exact absurd decoded (refused pieces)
    · exact ⟨pieces, rest, begins, .inr ⟨counted, trailing⟩⟩

/-- Two pieces that the bytes could hold: the first is whole, and of the five bytes of data that the second
announces there are three. -/
theorem decode_diagnosis_second_piece :
    let x : Bytes := [0x53, 0x45, 0x56, 0x4C, 1, 0, 0, 0, 2,
      0, 0x20, 0, 0, 0, 1, 7, 0, 0, 0, 0, 0, 1, 0, 0, 0, 5, 8, 9, 10]
    (∀ b : Bundle, b.encode ≠ .ok x) ∧ HasHeader x ∧ announcedCount x ≤ (x.length - 9) / 10 ∧
      ∃ (pieces : Bundle) (rest : Bytes), pieces.Begins (x.drop 9) rest ∧ pieces.length < 2 ∧
        ∃ field, Piece.EndsIn field rest ∧ Bundle.decode x = .error (.truncated field) := by
  intro x
  have refused : Bundle.decode x = .error (.truncated .data) := by cbv
  have foreign : ∀ b : Bundle, b.encode ≠ .ok x := by
    intro b encoded
    cases (Bundle.decode_eq_ok_iff_encode.mpr encoded).symm.trans refused
  have header : HasHeader x := ⟨rfl, by decide⟩
  have bounded : announcedCount x ≤ (x.length - 9) / 10 := by decide
  obtain ⟨-, -, -, -, -, -, found, -⟩ := decode_diagnosis x foreign
  rcases found header bounded with ⟨pieces, rest, begins, ⟨fewer, ends⟩ | ⟨-, -, trailing⟩⟩
  · exact ⟨foreign, header, bounded, pieces, rest, begins, fewer, ends⟩
  · cases trailing.symm.trans refused

end Bundle

end EvidenceExchange.Evidence
