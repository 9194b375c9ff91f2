import EvidenceExchange.Frame.Reader
import EvidenceExchange.Proofs.Frame.Grammar

namespace EvidenceExchange

namespace Frame

/-- The result of reading a frame, once the bytes of a stream decide it. -/
def verdict? (limit : Nat) (bytes : Bytes) : Option (Except FrameError Bytes) :=
  match head limit bytes with
  | .whole payload _ => some (.ok payload)
  | .oversized size _ => some (.error (.payloadTooLarge size limit))
  | _ => none

/-- The result of reading a frame from a stream that holds these bytes and no more. -/
def verdict (limit : Nat) (bytes : Bytes) : Except FrameError Bytes :=
  match head limit bytes with
  | .whole payload _ => .ok payload
  | .oversized size _ => .error (.payloadTooLarge size limit)
  | .shortPayload size received => .error (.truncatedPayload size received.length)
  | .shortLength => .error (.truncatedLength bytes.length)

theorem verdict?_append {limit : Nat} {bytes : Bytes} {result : Except FrameError Bytes}
    (h : verdict? limit bytes = some result) (more : Bytes) :
    verdict? limit (bytes ++ more) = some result := by
  unfold verdict? at h ⊢
  cases hh : head limit bytes with
  | whole payload rest => rw [head_append_of_whole hh]; rw [hh] at h; exact h
  | oversized size rest => rw [head_append_of_oversized hh]; rw [hh] at h; exact h
  | shortLength => simp [hh] at h
  | shortPayload size received => simp [hh] at h

theorem verdict_of_verdict? {limit : Nat} {bytes : Bytes} {result : Except FrameError Bytes}
    (h : verdict? limit bytes = some result) : verdict limit bytes = result := by
  unfold verdict? at h
  unfold verdict
  cases hh : head limit bytes <;> simp_all

theorem verdict_eq_ok_iff {limit : Nat} {bytes payload : Bytes} :
    verdict limit bytes = .ok payload ↔
      payload.length ≤ limit ∧ payload.length < 256 ^ lengthSize ∧
        BigEndian.encode lengthSize payload.length ++ payload <+: bytes := by
  constructor
  · intro h
    unfold verdict at h
    cases hh : head limit bytes with
    | whole content rest =>
      rw [hh] at h
      obtain rfl := Except.ok.inj h
      obtain ⟨hlimit, hsize, rfl⟩ := head_eq_whole_iff.mp hh
      exact ⟨hlimit, hsize, List.prefix_append _ _⟩
    | shortLength => simp [hh] at h
    | oversized size rest => simp [hh] at h
    | shortPayload size received => simp [hh] at h
  · rintro ⟨hlimit, hsize, rest, rfl⟩
    rw [verdict, head_eq_whole_iff.mpr ⟨hlimit, hsize, rfl⟩]

end Frame

namespace FrameReader

/-- The bytes that a reader has taken from its source, all of them still undecided. -/
structure Holds (r : FrameReader) (limit : Nat) (bytes : Bytes) : Prop where
  sound : r.codec.Sound
  limit_eq : r.codec.limit = limit
  held_eq : r.codec.held r.buffer.toList = bytes

theorem new_holds (limit : Nat) :
    (new (.withLimit limit)).Holds (min limit Frame.maxPayload) [] :=
  ⟨FrameCodec.withLimit_sound limit, rfl, rfl⟩

theorem Holds.feed {r : FrameReader} {limit : Nat} {bytes : Bytes} (h : r.Holds limit bytes)
    (chunk : Bytes) : (r.feed chunk).Holds limit (bytes ++ chunk) := by
  refine ⟨h.sound, h.limit_eq, ?_⟩
  rw [← h.held_eq, ← FrameCodec.held_append]
  simp only [FrameReader.feed, Array.toList_appendList]

theorem Holds.makeRoom {r : FrameReader} {limit : Nat} {bytes : Bytes} (h : r.Holds limit bytes) :
    r.makeRoom.Holds limit bytes := by
  unfold FrameReader.makeRoom
  split
  next => exact h
  next => exact ⟨h.sound, h.limit_eq, h.held_eq⟩

/-- The codec is asked only where its answer may decide the frame, and nothing is missed. -/
theorem verdict?_of_size_lt_needed {r : FrameReader} {limit : Nat} {bytes : Bytes}
    (h : r.Holds limit bytes) (hless : r.buffer.size < r.needed) :
    Frame.verdict? limit bytes = none := by
  have hlimit := h.limit_eq
  have hheld := h.held_eq
  unfold FrameCodec.held at hheld
  unfold needed at hless
  cases hp : r.codec.pending with
  | none =>
    rw [hp] at hheld hless
    have hshort : bytes.length < Frame.lengthSize := by simpa [← hheld] using hless
    rw [Frame.verdict?, Frame.head_eq_shortLength_iff.mpr hshort]
  | some size =>
    rw [hp] at hheld hless
    have hle := h.sound size hp
    have hhead : Frame.head limit bytes = .shortPayload size r.buffer.toList :=
      Frame.head_eq_shortPayload_iff.mpr
        ⟨hlimit ▸ hle, FrameCodec.lt_of_le_limit _ hle, by simpa using hless, hheld.symm⟩
    rw [Frame.verdict?, hhead]

theorem Holds.poll {r : FrameReader} {limit : Nat} {bytes : Bytes} (h : r.Holds limit bytes) :
    r.poll.1 = Frame.verdict? limit bytes ∧ (r.poll.1 = none → r.poll.2.Holds limit bytes) := by
  unfold FrameReader.poll
  split
  next hless => exact ⟨(verdict?_of_size_lt_needed h hless).symm, fun _ => h.makeRoom⟩
  next =>
    have hanswer := FrameCodec.decode_eq_answer h.sound r.buffer.toList
    rw [h.held_eq, FrameCodec.answer, h.limit_eq] at hanswer
    unfold Frame.verdict?
    simp only
    cases hh : Frame.head limit bytes with
    | whole payload rest => simp [hanswer, hh]
    | oversized size rest => simp [hanswer, hh]
    | shortLength | shortPayload =>
      have hnone : (r.codec.decode r.buffer.toList).result = .ok none := by simp [hanswer, hh]
      obtain ⟨hs, hl, hk⟩ := FrameCodec.decode_none h.sound hnone
      simp only [hnone, true_and]
      intro _
      exact Holds.makeRoom ⟨hs, hl.trans h.limit_eq, by simpa using hk.trans h.held_eq⟩

theorem Holds.finish {r : FrameReader} {limit : Nat} {bytes : Bytes} (h : r.Holds limit bytes) :
    r.finish = Frame.verdict limit bytes := by
  have hanswer := FrameCodec.decode_eq_answer h.sound r.buffer.toList
  rw [h.held_eq, FrameCodec.answer, h.limit_eq] at hanswer
  unfold FrameReader.finish FrameCodec.decodeEnd Frame.verdict
  cases hh : Frame.head limit bytes with
  | whole payload rest => simp [hanswer, hh]
  | oversized size rest => simp [hanswer, hh]
  | shortPayload size received => simp [hanswer, hh, FrameCodec.awaiting]
  | shortLength =>
    rw [hh] at hanswer
    simp only [hanswer, FrameCodec.awaiting]
    cases bytes <;> rfl

theorem run_of_poll_some {r : FrameReader} {result : Except FrameError Bytes}
    (h : r.poll.1 = some result) (source : List SourceRead) : r.run source = (result, source) := by
  rw [run.eq_def]
  split
  next hp =>
    rw [hp] at h
    rw [Option.some.inj h]
  next hp => simp [hp] at h

theorem run_nil_of_poll_none {r : FrameReader} (h : r.poll.1 = none) :
    r.run [] = (r.poll.2.finish, []) := by
  rw [run.eq_def]
  split
  next hp => simp [hp] at h
  next hp => simp [hp]

theorem run_cons_of_poll_none {r : FrameReader} (h : r.poll.1 = none) {chunk : Bytes}
    (nonempty : chunk ≠ []) (rest : List SourceRead) :
    r.run (.bytes chunk :: rest) = (r.poll.2.feed chunk).run rest := by
  obtain ⟨b, bs, rfl⟩ := List.exists_cons_of_ne_nil nonempty
  rw [run.eq_def]
  split
  next hp => simp [hp] at h
  next hp => simp [hp, accept]

theorem run_failure_of_poll_none {r : FrameReader} (h : r.poll.1 = none) (cause : IoError) :
    r.run [.failure cause] = (.error (.io cause), []) := by
  rw [run.eq_def]
  split
  next hp => simp [hp] at h
  next => rfl

/-- Whatever is left of a source, the reads taken from it can be joined: either their bytes decide
the result, or the reader goes on holding all of them. -/
theorem run_append {limit : Nat} (chunks : List Bytes) (nonempty : [] ∉ chunks)
    (rest : List SourceRead) {r : FrameReader} {bytes : Bytes} (h : r.Holds limit bytes) :
    (∃ result, Frame.verdict? limit (bytes ++ chunks.flatten) = some result ∧
        (r.run (chunks.map .bytes ++ rest)).1 = result) ∨
      (Frame.verdict? limit (bytes ++ chunks.flatten) = none ∧
        ∃ r' : FrameReader, r'.Holds limit (bytes ++ chunks.flatten) ∧
          r.run (chunks.map .bytes ++ rest) = r'.run rest) := by
  induction chunks generalizing r bytes with
  | nil =>
    obtain ⟨hpoll, _⟩ := h.poll
    simp only [List.flatten_nil, List.append_nil, List.map_nil, List.nil_append]
    cases hv : Frame.verdict? limit bytes with
    | none => exact .inr ⟨rfl, r, h, rfl⟩
    | some result => exact .inl ⟨result, rfl, by rw [run_of_poll_some (hpoll.trans hv)]⟩
  | cons chunk chunks ih =>
    obtain ⟨hpoll, hleft⟩ := h.poll
    obtain ⟨hchunk, hchunks⟩ := not_or.mp (List.mem_cons.not.mp nonempty)
    rw [List.flatten_cons, ← List.append_assoc]
    cases hv : Frame.verdict? limit bytes with
    | some result =>
      refine .inl ⟨result, ?_, by rw [run_of_poll_some (hpoll.trans hv)]⟩
      exact Frame.verdict?_append (Frame.verdict?_append hv chunk) chunks.flatten
    | none =>
      have hholds := (hleft (hpoll.trans hv)).feed chunk
      rw [List.map_cons, List.cons_append,
        run_cons_of_poll_none (hpoll.trans hv) (Ne.symm hchunk)]
      exact ih hchunks hholds

end FrameReader

namespace Frame

/-- Reading a frame from a stream that comes in reads of any sizes gives what its bytes say. -/
theorem readWith_eq_verdict (limit : Nat) {reads : List Bytes} (nonempty : [] ∉ reads) :
    (readWith (.withLimit limit) (reads.map .bytes)).1 =
      verdict (min limit maxPayload) reads.flatten := by
  have h := FrameReader.run_append reads nonempty [] (FrameReader.new_holds limit)
  rw [List.append_nil, List.nil_append] at h
  obtain ⟨result, hv, hr⟩ | ⟨hv, r, hholds, hr⟩ := h
  · rw [readWith, hr, verdict_of_verdict? hv]
  · obtain ⟨hpoll, hleft⟩ := hholds.poll
    rw [readWith, hr, FrameReader.run_nil_of_poll_none (hpoll.trans hv)]
    exact (hleft (hpoll.trans hv)).finish

end Frame

end EvidenceExchange
