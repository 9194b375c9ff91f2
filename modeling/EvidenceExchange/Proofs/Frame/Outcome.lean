import EvidenceExchange.Proofs.Frame.Stream

namespace EvidenceExchange.Frame

/-- The result of reading a frame from a stream that gives these bytes and then ends or breaks. -/
def outcome (limit : Nat) (bytes : Bytes) (fault : Option IoError) : Except FrameError Bytes :=
  match verdict? limit bytes, fault with
  | some result, _ => result
  | none, some cause => .error (.io cause)
  | none, none => verdict limit bytes

variable {limit : Nat} {bytes : Bytes} {fault : Option IoError}

theorem outcome_of_verdict? {result : Except FrameError Bytes}
    (decided : verdict? limit bytes = some result) : outcome limit bytes fault = result := by
  simp only [outcome, decided]

theorem outcome_of_undecided (undecided : verdict? limit bytes = none) :
    outcome limit bytes fault =
      match fault with
      | some cause => .error (.io cause)
      | none => verdict limit bytes := by
  unfold outcome
  rw [undecided]
  cases fault <;> rfl

theorem outcome_of_end : outcome limit bytes none = verdict limit bytes := by
  cases decided : verdict? limit bytes with
  | none => exact outcome_of_undecided decided
  | some result => rw [outcome_of_verdict? decided, verdict_of_verdict? decided]

/-- Reading from a stream that comes in reads of any sizes and then ends or breaks. -/
theorem readWith_eq_outcome (limit : Nat) {reads : List Bytes} (nonempty : [] ∉ reads)
    (fault : Option IoError) :
    (readWith (.withLimit limit) (reads.map SourceRead.bytes ++ (fault.map SourceRead.failure).toList)).1 =
      outcome (min limit maxPayload) reads.flatten fault := by
  have joined := FrameReader.run_append reads nonempty (fault.map SourceRead.failure).toList
    (FrameReader.new_holds limit)
  rw [List.nil_append] at joined
  obtain ⟨result, decided, ran⟩ | ⟨undecided, r, holds, ran⟩ := joined
  · rw [readWith, ran, outcome_of_verdict? decided]
  · have still : r.poll.1 = none := holds.poll.1.trans undecided
    rw [readWith, ran, outcome_of_undecided undecided]
    cases fault with
    | none =>
      rw [Option.map_none, Option.toList_none, FrameReader.run_nil_of_poll_none still]
      exact (holds.poll.2 still).finish
    | some cause =>
      rw [Option.map_some, Option.toList_some, FrameReader.run_failure_of_poll_none still]

section declared

variable {size : Nat} (prefixed : lengthSize ≤ bytes.length)
  (declared : BigEndian.decode (bytes.take lengthSize) = size)

include prefixed declared

theorem verdict?_of_oversized (exceeds : limit < size) :
    verdict? limit bytes = some (.error (.payloadTooLarge size limit)) := by
  simp only [verdict?, head, if_neg (not_lt.mpr prefixed), declared, if_pos exceeds]

theorem verdict?_of_whole (within : size ≤ limit) (enough : lengthSize + size ≤ bytes.length) :
    verdict? limit bytes = some (.ok ((bytes.drop lengthSize).take size)) := by
  have rest : ¬(bytes.drop lengthSize).length < size := by
    rw [List.length_drop]
    omega
  simp only [verdict?, head, if_neg (not_lt.mpr prefixed), declared, if_neg (not_lt.mpr within),
    if_neg rest]

theorem head_of_short (within : size ≤ limit) (short : bytes.length < lengthSize + size) :
    head limit bytes = .shortPayload size (bytes.drop lengthSize) := by
  have rest : (bytes.drop lengthSize).length < size := by
    rw [List.length_drop]
    omega
  simp only [head, if_neg (not_lt.mpr prefixed), declared, if_neg (not_lt.mpr within), if_pos rest]

end declared

/-- What is short of a frame breaks off in its length or in its payload. -/
theorem malformed_of_short_frame {payload frame : Bytes}
    (framed : encodeWithin limit payload = .ok frame) (fits : limit ≤ maxPayload)
    (part : bytes <+: frame) (proper : bytes ≠ frame) :
    ∃ e, verdict limit bytes = .error e ∧ e.isMalformed = true := by
  obtain ⟨within, rfl⟩ := encodeWithin_eq_ok_iff.mp framed
  obtain ⟨rest, joined⟩ := part
  have more : rest ≠ [] := by
    rintro rfl
    exact proper ((List.append_nil _).symm.trans joined)
  have size : payload.length < 256 ^ lengthSize := by
    have bound : maxPayload < 256 ^ lengthSize := by decide
    omega
  -- The whole frame and its part begin alike, so that the part cannot be a whole frame of its own.
  have whole : head limit (bytes ++ rest) = .whole payload [] :=
    head_eq_whole_iff.mpr ⟨within, size, by rw [joined, List.append_nil]⟩
  unfold verdict
  cases begins : head limit bytes with
  | shortLength => exact ⟨_, rfl, rfl⟩
  | shortPayload => exact ⟨_, rfl, rfl⟩
  | oversized =>
    rw [head_append_of_oversized begins] at whole
    cases whole
  | whole payload' rest' =>
    rw [head_append_of_whole begins] at whole
    obtain ⟨-, left⟩ := FrameHead.whole.inj whole
    exact absurd (List.append_eq_nil_iff.mp left).2 more

theorem verdict?_of_frame {payload frame : Bytes} (framed : encodeWithin limit payload = .ok frame)
    (fits : limit ≤ maxPayload) : verdict? limit frame = some (.ok payload) := by
  obtain ⟨within, rfl⟩ := encodeWithin_eq_ok_iff.mp framed
  have size : payload.length < 256 ^ lengthSize := (within.trans fits).trans_lt (by decide)
  have whole := head_eq_whole_iff.mpr ⟨within, size, (List.append_nil _).symm⟩
  rw [verdict?, whole]

/-- A frame is not decided before its last byte. -/
theorem verdict?_of_part {payload part rest : Bytes}
    (framed : encodeWithin limit payload = .ok (part ++ rest)) (fits : limit ≤ maxPayload)
    (short : rest ≠ []) : verdict? limit part = none := by
  have proper : part ≠ part ++ rest := fun same => short (List.self_eq_append_right.mp same)
  obtain ⟨e, malformed, -⟩ := malformed_of_short_frame framed fits (List.prefix_append ..) proper
  refine Option.eq_none_iff_forall_ne_some.mpr fun result decided => ?_
  have whole := (verdict?_append decided rest).symm.trans (verdict?_of_frame framed fits)
  obtain rfl := Option.some.inj whole
  cases (verdict_of_verdict? decided).symm.trans malformed

/-- Reading a frame, from any stream in any reads: a length above the limit is refused whatever comes
after it, a whole frame is given whatever comes after it, and only otherwise does the end of the stream
show, as an I/O error or as the place where the frame breaks off. -/
theorem readWith_outcome (limit : Nat) {reads : List Bytes} (nonempty : [] ∉ reads)
    (fault : Option IoError) :
    let m := min limit 1048576
    let s := reads.flatten
    let size := BigEndian.decode (s.take 4)
    let result := (readWith (.withLimit limit) (reads.map SourceRead.bytes ++ (fault.map SourceRead.failure).toList)).1
    (4 ≤ s.length → m < size → result = .error (.payloadTooLarge size m)) ∧
    (4 ≤ s.length → size ≤ m → 4 + size ≤ s.length → result = .ok ((s.drop 4).take size)) ∧
    (s.length < 4 ∨ size ≤ m ∧ s.length < 4 + size →
      (∀ cause, fault = some cause → result = .error (.io cause)) ∧
      (fault = none → s.length < 4 → result = .error (.truncatedLength s.length)) ∧
      (fault = none → 4 ≤ s.length →
        result = .error (.truncatedPayload size (s.length - 4)))) ∧
    (∀ reads' : List Bytes, [] ∉ reads' → reads'.flatten = s →
      (readWith (.withLimit limit) (reads'.map SourceRead.bytes ++ (fault.map SourceRead.failure).toList)).1 = result) ∧
    ∀ payload frame, encodeWithin m payload = .ok frame → s <+: frame → s ≠ frame → fault = none →
      ∃ e, result = .error e ∧ e.isMalformed = true := by
  intro m s size result
  have read : result = outcome m s fault := readWith_eq_outcome limit nonempty fault
  refine ⟨fun prefixed exceeds => ?_, fun prefixed within enough => ?_, fun undone => ?_,
    fun reads' nonempty' same => ?_, fun payload frame framed part proper ended => ?_⟩
  · exact read.trans (outcome_of_verdict? (verdict?_of_oversized prefixed rfl exceeds))
  · exact read.trans (outcome_of_verdict? (verdict?_of_whole prefixed rfl within enough))
  · by_cases short : s.length < 4
    · have begins : head m s = .shortLength := head_eq_shortLength_iff.mpr short
      have undecided : verdict? m s = none := by rw [verdict?, begins]
      rw [read, outcome_of_undecided undecided]
      refine ⟨?_, ?_, fun _ prefixed => absurd short (not_lt.mpr prefixed)⟩
      · rintro cause rfl
        rfl
      · rintro rfl _
        simp only [verdict, begins]
    · obtain ⟨within, missing⟩ := undone.resolve_left short
      have begins : head m s = .shortPayload size (s.drop lengthSize) :=
        head_of_short (not_lt.mp short) rfl within missing
      have undecided : verdict? m s = none := by rw [verdict?, begins]
      rw [read, outcome_of_undecided undecided]
      refine ⟨?_, fun _ less => absurd less short, ?_⟩
      · rintro cause rfl
        rfl
      · rintro rfl _
        simp only [verdict, begins, List.length_drop, lengthSize]
  · rw [readWith_eq_outcome limit nonempty' fault, same]
    exact read.symm
  · subst ended
    rw [read, outcome_of_end]
    exact malformed_of_short_frame framed (Nat.min_le_right ..) part proper

/-- Of four payload bytes two have come, in reads that cut the length, when the stream breaks. -/
theorem readWith_outcome_broken :
    let reads : List Bytes := [[0, 0], [0, 4, 7], [8]]
    [] ∉ reads ∧
      (readWith (.withLimit 5) (reads.map SourceRead.bytes ++ [.failure .connectionReset])).1 =
        .error (.io .connectionReset) := by
  intro reads
  have nonempty : [] ∉ reads := by decide
  obtain ⟨-, -, undone, -⟩ := readWith_outcome 5 nonempty (some .connectionReset)
  exact ⟨nonempty, (undone (.inr (by decide))).1 _ rfl⟩

end EvidenceExchange.Frame
