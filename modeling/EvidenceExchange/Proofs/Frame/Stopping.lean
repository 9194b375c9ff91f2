import EvidenceExchange.Proofs.Frame.Outcome

namespace EvidenceExchange

/-- The bytes that a read brings; there are none where the stream ends or breaks. -/
def SourceRead.chunk : SourceRead → Bytes
  | .bytes chunk => chunk
  | .failure _ => []

theorem SourceRead.eq_bytes {read : SourceRead} (nonempty : read.chunk ≠ []) :
    read = .bytes read.chunk := by
  cases read with
  | bytes chunk => rfl
  | failure cause => exact absurd rfl nonempty

namespace FrameReader

variable {r : FrameReader} {limit : Nat} {bytes : Bytes}

/-- The result after the last read of a frame that the bytes before it leave undecided. -/
def conclude (limit : Nat) (bytes : Bytes) : SourceRead → Except FrameError Bytes
  | .bytes chunk => Frame.verdict limit (bytes ++ chunk)
  | .failure cause => .error (.io cause)

theorem run_cons_of_accept (undecided : r.poll.1 = none) {read : SourceRead}
    {result : Except FrameError Bytes} (accepted : r.poll.2.accept read = .inl result)
    (rest : List SourceRead) : r.run (read :: rest) = (result, rest) := by
  rw [run.eq_def]
  split
  next decided => simp [decided] at undecided
  next polled =>
    have accepted := (congrArg (·.2.accept read) polled).symm.trans accepted
    simp only [accepted]

/-- A read that decides the frame, or brings nothing, is the last one. -/
theorem Holds.run_last (holds : r.Holds limit bytes) (undecided : Frame.verdict? limit bytes = none)
    {read : SourceRead}
    (last : Frame.verdict? limit (bytes ++ read.chunk) ≠ none ∨ read.chunk = [])
    (rest : List SourceRead) : r.run (read :: rest) = (conclude limit bytes read, rest) := by
  obtain ⟨polled, left⟩ := holds.poll
  have still := polled.trans undecided
  cases read with
  | failure cause => exact run_cons_of_accept still rfl rest
  | bytes chunk =>
    cases chunk with
    | nil =>
      rw [conclude, List.append_nil, ← (left still).finish]
      exact run_cons_of_accept still rfl rest
    | cons byte chunk =>
      have decided := last.resolve_right (List.cons_ne_nil byte chunk)
      obtain ⟨result, decided⟩ := Option.ne_none_iff_exists'.mp decided
      change Frame.verdict? limit (bytes ++ byte :: chunk) = some result at decided
      have fed := ((left still).feed (byte :: chunk)).poll.1
      rw [run_cons_of_poll_none still (List.cons_ne_nil byte chunk), conclude,
        Frame.verdict_of_verdict? decided]
      exact run_of_poll_some (fed.trans decided) rest

end FrameReader

namespace Frame

/-- Reads that leave a frame undecided are taken, and so is the one after them, which ends it. -/
theorem readWith_of_last {limit : Nat} {chunks : List Bytes} (nonempty : [] ∉ chunks)
    (undecided : verdict? (min limit maxPayload) chunks.flatten = none) {read : SourceRead}
    (last : verdict? (min limit maxPayload) (chunks.flatten ++ read.chunk) ≠ none ∨ read.chunk = [])
    (more : List SourceRead) :
    readWith (.withLimit limit) (chunks.map .bytes ++ read :: more) =
      (FrameReader.conclude (min limit maxPayload) chunks.flatten read, more) := by
  obtain ⟨result, decided, -⟩ | ⟨-, r, holds, ran⟩ :=
    FrameReader.run_append chunks nonempty (read :: more) (FrameReader.new_holds limit)
  · cases undecided.symm.trans decided
  · exact ran.trans (holds.run_last undecided last more)

/-- The bytes of the first reads of a source that may go on for ever. -/
def taken (source : Nat → SourceRead) (count : Nat) : Bytes :=
  ((List.range count).map fun i => (source i).chunk).flatten

/-- Some bytes hold a length above the limit, or a whole frame. -/
def Settles (limit : Nat) (bytes : Bytes) : Prop :=
  4 ≤ bytes.length ∧ (limit < BigEndian.decode (bytes.take 4) ∨
    4 + BigEndian.decode (bytes.take 4) ≤ bytes.length)

/-- The length that some bytes begin with, as long as it is within the limit. -/
def awaited (limit : Nat) (bytes : Bytes) : Nat :=
  if 4 ≤ bytes.length ∧ BigEndian.decode (bytes.take 4) ≤ limit then BigEndian.decode (bytes.take 4)
  else 0

theorem settles_iff {limit : Nat} {bytes : Bytes} :
    Settles limit bytes ↔ verdict? limit bytes ≠ none := by
  constructor
  · rintro ⟨prefixed, settled⟩
    by_cases exceeds : limit < BigEndian.decode (bytes.take 4)
    · rw [verdict?_of_oversized prefixed rfl exceeds]
      exact Option.some_ne_none _
    · rw [verdict?_of_whole prefixed rfl (not_lt.mp exceeds) (settled.resolve_left exceeds)]
      exact Option.some_ne_none _
  · intro decided
    by_contra unsettled
    apply decided
    by_cases prefixed : 4 ≤ bytes.length
    · obtain ⟨within, short⟩ := not_or.mp (not_and.mp unsettled prefixed)
      rw [verdict?, head_of_short prefixed rfl (not_lt.mp within) (not_le.mp short)]
    · rw [verdict?, head_eq_shortLength_iff.mpr (not_le.mp prefixed)]

/-- Bytes that do not settle a frame are fewer than the length wants, whatever comes after them. -/
theorem length_lt_of_not_settles {limit : Nat} {bytes : Bytes} (unsettled : ¬Settles limit bytes)
    (more : Bytes) : bytes.length < 4 + awaited limit (bytes ++ more) := by
  by_cases prefixed : 4 ≤ bytes.length
  · obtain ⟨within, short⟩ := not_or.mp (not_and.mp unsettled prefixed)
    have long : 4 ≤ (bytes ++ more).length := by
      rw [List.length_append]
      omega
    have same : (bytes ++ more).take 4 = bytes.take 4 := List.take_append_of_le_length prefixed
    rw [awaited, same, if_pos ⟨long, not_lt.mp within⟩]
    exact not_le.mp short
  · omega

section source

variable {limit : Nat} {source : Nat → SourceRead}

theorem taken_succ (source : Nat → SourceRead) (k : Nat) :
    taken source (k + 1) = taken source k ++ (source k).chunk := by
  simp [taken, List.range_succ]

theorem le_length_taken {k : Nat} (nonempty : ∀ i < k, (source i).chunk ≠ []) :
    k ≤ (taken source k).length := by
  induction k with
  | zero => exact Nat.zero_le _
  | succ k ih =>
    have before := ih fun i h => nonempty i (Nat.lt_succ_of_lt h)
    have more := List.length_pos_iff.mpr (nonempty k (Nat.lt_succ_self k))
    rw [taken_succ, List.length_append]
    omega

theorem map_source {k : Nat} (nonempty : ∀ i < k, (source i).chunk ≠ []) :
    (List.range k).map source =
      ((List.range k).map fun i => (source i).chunk).map SourceRead.bytes := by
  rw [List.map_map]
  exact List.map_congr_left fun i mem => SourceRead.eq_bytes (nonempty i (List.mem_range.mp mem))

/-- The first reads of a source are enough to read a frame: their bytes settle it, or the source has
ended. -/
def Enough (limit : Nat) (source : Nat → SourceRead) (k : Nat) : Prop :=
  Settles limit (taken source k) ∨ ∃ i < k, (source i).chunk = []

/-- A source that goes on gives a byte a read at least, and no frame has more bytes than these. -/
theorem enough_of_limit (limit : Nat) (source : Nat → SourceRead) :
    Enough limit source (4 + limit) := by
  by_contra lacking
  obtain ⟨unsettled, going⟩ := not_or.mp lacking
  have long := le_length_taken fun i h ended => going ⟨i, h, ended⟩
  refine unsettled ⟨by omega, ?_⟩
  by_cases exceeds : limit < BigEndian.decode ((taken source (4 + limit)).take 4)
  · exact .inl exceeds
  · right
    omega

/-- The reader takes reads up to the first that are enough. -/
theorem readWith_of_enough {limit k : Nat} (lacking : ¬Enough (min limit maxPayload) source k)
    (enough : Enough (min limit maxPayload) source (k + 1)) (more : List SourceRead) :
    readWith (.withLimit limit) ((List.range (k + 1)).map source ++ more) =
      (FrameReader.conclude (min limit maxPayload) (taken source k) (source k), more) := by
  obtain ⟨unsettled, going⟩ := not_or.mp lacking
  have undecided : verdict? (min limit maxPayload) (taken source k) = none :=
    not_not.mp (mt settles_iff.mpr unsettled)
  have nonempty : ∀ i < k, (source i).chunk ≠ [] := fun i h ended => going ⟨i, h, ended⟩
  have chunks : [] ∉ (List.range k).map fun i => (source i).chunk := by
    intro mem
    obtain ⟨i, inside, ended⟩ := List.mem_map.mp mem
    exact nonempty i (List.mem_range.mp inside) ended
  have last : verdict? (min limit maxPayload) (taken source k ++ (source k).chunk) ≠ none ∨
      (source k).chunk = [] := by
    rcases enough with settled | ⟨i, h, ended⟩
    · rw [taken_succ] at settled
      exact .inl (settles_iff.mp settled)
    · obtain rfl : i = k := by
        by_contra other
        exact nonempty i (by omega) ended
      exact .inr ended
  rw [List.range_succ, List.map_append, List.append_assoc, map_source nonempty]
  exact readWith_of_last chunks undecided last more

/-- Reading takes no more reads than there are bytes in the frame, or four, and none once the bytes
settle it. -/
theorem exists_readWith (limit : Nat) (source : Nat → SourceRead) :
    let m := min limit maxPayload
    ∃ n result, n ≤ 4 + awaited m (taken source n) ∧ (∀ k, Settles m (taken source k) → n ≤ k) ∧
      ∀ more, readWith (.withLimit limit) ((List.range n).map source ++ more) = (result, more) := by
  classical
  intro m
  have enough : ∃ k, Enough m source k := ⟨_, enough_of_limit m source⟩
  -- After the least number of reads that are enough the frame is settled or the source has ended, and
  -- after one read fewer neither of the two.
  have found := Nat.find_spec enough
  obtain ⟨k, least⟩ : ∃ k, Nat.find enough = k + 1 := by
    refine Nat.exists_eq_succ_of_ne_zero fun none => ?_
    rw [none] at found
    rcases found with ⟨prefixed, -⟩ | ⟨i, before, -⟩
    · cases prefixed
    · cases before
  rw [least] at found
  have lacking : ¬Enough m source k := Nat.find_min enough (by omega)
  refine ⟨k + 1, _, ?_, ?_, readWith_of_enough lacking found⟩
  · obtain ⟨unsettled, going⟩ := not_or.mp lacking
    have long := le_length_taken fun i h ended => going ⟨i, h, ended⟩
    have short := length_lt_of_not_settles unsettled (source k).chunk
    rw [← taken_succ] at short
    omega
  · intro j settled
    rw [← least]
    exact Nat.find_min' enough (.inl settled)

end source

section frames

variable {limit : Nat} {payload frame : Bytes} {frames reads : List Bytes}

/-- Reads that hold one frame are all taken, and none after them. -/
theorem readWith_of_frame (framed : encodeWithin (min limit maxPayload) payload = .ok reads.flatten)
    (nonempty : [] ∉ reads) (more : List SourceRead) :
    readWith (.withLimit limit) (reads.map .bytes ++ more) = (.ok payload, more) := by
  rcases List.eq_nil_or_concat' reads with rfl | ⟨front, last, rfl⟩
  · obtain ⟨-, nothing⟩ := encodeWithin_eq_ok_iff.mp framed
    have length := congrArg List.length nothing
    rw [List.length_append, BigEndian.length_encode, lengthSize, List.flatten_nil, List.length_nil]
      at length
    omega
  · have fits := Nat.min_le_right limit maxPayload
    obtain ⟨before, final⟩ := not_or.mp (List.mem_append.not.mp nonempty)
    have some : last ≠ [] := fun none => final (none ▸ List.mem_singleton_self _)
    rw [List.flatten_append, List.flatten_singleton] at framed
    have undecided := verdict?_of_part framed fits some
    have decided := verdict?_of_frame framed fits
    have ends : verdict? (min limit maxPayload) (front.flatten ++ (SourceRead.bytes last).chunk) ≠
        none := decided ▸ Option.some_ne_none _
    have ran := readWith_of_last before undecided (.inl ends) more
    rw [FrameReader.conclude, verdict_of_verdict? decided] at ran
    rw [List.map_append, List.append_assoc]
    exact ran

/-- No read holds bytes of two frames: where a frame ends, no read is under way. -/
def Apart (frames reads : List Bytes) : Prop :=
  ∀ i < reads.length, ∀ j ≤ frames.length,
    ¬((reads.take i).flatten.length < (frames.take j).flatten.length ∧
      (frames.take j).flatten.length < (reads.take (i + 1)).flatten.length)

instance (frames reads : List Bytes) : Decidable (Apart frames reads) :=
  inferInstanceAs (Decidable (∀ i < reads.length, ∀ j ≤ frames.length, ¬(_ ∧ _)))

theorem Apart.others {one others : List Bytes} (apart : Apart (frame :: frames) (one ++ others))
    (first : one.flatten = frame) : Apart frames others := by
  intro i inside j upTo
  have shift : ∀ i, ((one ++ others).take (one.length + i)).flatten.length =
      frame.length + (others.take i).flatten.length := by
    intro i
    rw [List.take_length_add_append, List.flatten_append, List.length_append, first]
  have clear := apart (one.length + i) (by rw [List.length_append]; omega) (j + 1)
    (Nat.succ_le_succ upTo)
  rw [Nat.add_assoc, shift, shift, List.take_succ_cons, List.flatten_cons, List.length_append] at clear
  omega

/-- The reads of the first frame come before those of the others. -/
theorem Apart.exists_first (apart : Apart (frame :: frames) reads)
    (joined : reads.flatten = frame ++ frames.flatten) :
    ∃ one others, reads = one ++ others ∧ one.flatten = frame ∧ others.flatten = frames.flatten := by
  have enough : ∃ i, frame.length ≤ (reads.take i).flatten.length :=
    ⟨reads.length, by rw [List.take_length, joined, List.length_append]; omega⟩
  have reached := Nat.find_spec enough
  -- The read that reaches the end of the first frame cannot go beyond it.
  have whole : (reads.take (Nat.find enough)).flatten.length = frame.length := by
    refine Nat.le_antisymm ?_ reached
    cases least : Nat.find enough with
    | zero => exact Nat.zero_le _
    | succ k =>
      rw [least] at reached
      have before : ¬frame.length ≤ (reads.take k).flatten.length := Nat.find_min enough (by omega)
      have inside : k < reads.length := by
        by_contra past
        rw [List.take_of_length_le (by omega)] at before reached
        exact before reached
      have clear := apart k inside 1 (Nat.succ_le_succ (Nat.zero_le _))
      rw [List.take_succ_cons, List.take_zero, List.flatten_singleton] at clear
      omega
  rw [← List.take_append_drop (Nat.find enough) reads, List.flatten_append] at joined
  obtain ⟨first, rest⟩ := List.append_inj joined whole
  exact ⟨_, _, (List.take_append_drop (Nat.find enough) reads).symm, first, rest⟩

/-- Frames whose reads keep apart are read one after another, and then there is nothing. -/
theorem readMany_of_frames {payloads : List Bytes}
    (within : ∀ p ∈ payloads, p.length ≤ min limit maxPayload)
    (framed : payloads.mapM encode = .ok frames) (nonempty : [] ∉ reads)
    (joined : reads.flatten = frames.flatten) (apart : Apart frames reads) :
    readMany (.withLimit limit) (payloads.length + 1) (reads.map .bytes) =
      payloads.map .ok ++ [.error (.truncatedLength 0)] := by
  induction payloads generalizing frames reads with
  | nil =>
    cases framed
    have ended : reads = [] := by
      refine List.eq_nil_iff_forall_not_mem.mpr fun read mem => nonempty ?_
      exact List.flatten_eq_nil_iff.mp joined read mem ▸ mem
    have nothing : (readWith (.withLimit limit) []).1 = .error (.truncatedLength 0) :=
      readWith_eq_verdict limit List.not_mem_nil
    rw [ended]
    exact congrArg (fun result => [result]) nothing
  | cons payload payloads ih =>
    rw [List.mapM_cons] at framed
    obtain ⟨frame, first, framed⟩ := Except.bind_eq_ok_iff.mp framed
    obtain ⟨later, rest, same⟩ := Except.bind_eq_ok_iff.mp framed
    cases same
    obtain ⟨one, others, rfl, rfl, left⟩ := apart.exists_first joined
    obtain ⟨before, after⟩ := not_or.mp (List.mem_append.not.mp nonempty)
    obtain ⟨fits, mine⟩ := encodeWithin_eq_ok_iff.mp first
    have first' : encodeWithin (min limit maxPayload) payload = .ok one.flatten :=
      encodeWithin_eq_ok_iff.mpr ⟨within payload (List.mem_cons_self ..), mine⟩
    have later' := ih (fun p mem => within p (List.mem_cons_of_mem _ mem)) rest after left
      (apart.others rfl)
    rw [List.length_cons, readMany, List.map_append, readWith_of_frame first' before]
    simp only [later', List.map_cons, List.cons_append]

end frames

/-- Reading a frame takes no further read once the bytes taken hold a length above the limit or a whole
frame, and so no more than four reads, or one for each byte of the frame, even from a source that never
ends. Frames that share no read are therefore read one after another, each by itself, until the source
has no more. -/
theorem readWith_stops_early (limit : Nat) :
    (∀ source : Nat → SourceRead, ∃ n result,
      n ≤ max 4 (4 + awaited (min limit 1048576) (taken source n)) ∧
        (∀ k, Settles (min limit 1048576) (taken source k) → n ≤ k) ∧
        ∀ more, readWith (.withLimit limit) ((List.range n).map source ++ more) = (result, more)) ∧
    ∀ payloads frames reads : List Bytes, (∀ p ∈ payloads, p.length ≤ min limit 1048576) →
      payloads.mapM encode = .ok frames → [] ∉ reads → reads.flatten = frames.flatten →
      Apart frames reads →
        readMany (.withLimit limit) (payloads.length + 1) (reads.map .bytes) =
          payloads.map .ok ++ [.error (.truncatedLength 0)] := by
  refine ⟨fun source => ?_, fun payloads frames reads within framed nonempty joined apart => ?_⟩
  · obtain ⟨n, result, short, early, ran⟩ := exists_readWith limit source
    exact ⟨n, result, short.trans (Nat.le_max_right ..), early, ran⟩
  · exact readMany_of_frames within framed nonempty joined apart

/-- An endless source of zeros is an empty frame after four reads; an empty frame and one that comes in
three reads, with its length cut, are both read. -/
theorem readWith_stops_early_zeros_then_two_frames :
    let zeros : Nat → SourceRead := fun _ => .bytes [0]
    let frames : List Bytes := [[0, 0, 0, 0], [0, 0, 0, 3, 1, 2, 3]]
    let reads : List Bytes := [[0, 0], [0, 0], [0, 0, 0], [3, 1], [2, 3]]
    (∃ n ≤ 4, ∃ result, ∀ more,
      readWith (.withLimit 3) ((List.range n).map zeros ++ more) = (result, more)) ∧
    [[], [1, 2, 3]].mapM encode = .ok frames ∧ [] ∉ reads ∧ Apart frames reads ∧
      readMany (.withLimit 3) 3 (reads.map .bytes) =
        [.ok [], .ok [1, 2, 3], .error (.truncatedLength 0)] := by
  intro zeros frames reads
  obtain ⟨single, many⟩ := readWith_stops_early 3
  obtain ⟨n, result, -, early, ran⟩ := single zeros
  have framed : [[], [1, 2, 3]].mapM encode = .ok frames := rfl
  have nonempty : [] ∉ reads := by decide
  have apart : Apart frames reads := by decide
  refine ⟨⟨n, early 4 ⟨by decide, .inr (by decide)⟩, result, ran⟩, framed, nonempty, apart, ?_⟩
  exact many _ frames reads (by decide) framed nonempty rfl apart

end Frame

end EvidenceExchange
