import EvidenceExchange.Proofs.Frame.Chunking

namespace EvidenceExchange

namespace Frame

/-- The frames of payloads, one after another. -/
def stream : List Bytes → Bytes
  | [] => []
  | payload :: rest => BigEndian.encode lengthSize payload.length ++ payload ++ stream rest

theorem stream_append (payloads later : List Bytes) :
    stream (payloads ++ later) = stream payloads ++ stream later := by
  induction payloads with
  | nil => rfl
  | cons payload rest ih => rw [List.cons_append, stream, ih, stream, List.append_assoc _ (stream rest)]

/-- Some bytes are too few for the first of the frames. -/
def Wants (bytes : Bytes) (payloads : List Bytes) : Prop :=
  ∀ payload ∈ payloads.head?, bytes.length < lengthSize + payload.length

theorem Wants.eq_nil {bytes : Bytes} {payloads : List Bytes} (wants : Wants bytes payloads)
    (fits : (stream payloads).length ≤ bytes.length) : payloads = [] := by
  cases payloads with
  | nil => rfl
  | cons payload rest =>
    have lacks := wants payload rfl
    rw [stream, List.length_append, List.length_append, BigEndian.length_encode] at fits
    omega

theorem Wants.take {bytes : Bytes} {payloads : List Bytes} (wants : Wants bytes payloads) (j : Nat) :
    Wants bytes (payloads.take j) := by
  intro payload mem
  cases j with
  | zero => cases mem
  | succ j =>
    rw [List.head?_take, if_neg (Nat.succ_ne_zero j)] at mem
    exact wants payload mem

theorem length_stream_take_add (payloads : List Bytes) (i j : Nat) :
    (stream (payloads.take (i + j))).length =
      (stream (payloads.take i)).length + (stream ((payloads.drop i).take j)).length := by
  rw [List.take_add, stream_append, List.length_append]

theorem mapM_encode {payloads : List Bytes} (within : ∀ p ∈ payloads, p.length ≤ maxPayload) :
    ∃ frames, payloads.mapM encode = .ok frames ∧ frames.flatten = stream payloads := by
  induction payloads with
  | nil => exact ⟨[], rfl, rfl⟩
  | cons payload rest ih =>
    obtain ⟨frames, framed, flat⟩ := ih fun p mem => within p (List.mem_cons_of_mem _ mem)
    have first : encode payload = .ok (BigEndian.encode lengthSize payload.length ++ payload) :=
      encodeWithin_eq_ok_iff.mpr ⟨within payload (List.mem_cons_self ..), rfl⟩
    refine ⟨(BigEndian.encode lengthSize payload.length ++ payload) :: frames, ?_, ?_⟩
    · rw [List.mapM_cons, first, framed]
      rfl
    · rw [List.flatten_cons, flat]
      rfl

end Frame

namespace FrameCodec

theorem encodeAll_eq {c : FrameCodec} {payloads : List Bytes}
    (within : ∀ p ∈ payloads, p.length ≤ c.limit) (buffer : Bytes) :
    c.encodeAll buffer payloads = ⟨.ok (), c, buffer ++ Frame.stream payloads⟩ := by
  induction payloads generalizing buffer with
  | nil => rw [Frame.stream, List.append_nil, encodeAll]
  | cons payload rest ih =>
    have first : c.encode payload buffer =
        ⟨.ok (), c, buffer ++ BigEndian.encode Frame.lengthSize payload.length ++ payload⟩ := by
      rw [encode, Frame.put_eq, if_pos (within payload (List.mem_cons_self ..))]
    rw [encodeAll, first]
    change c.encodeAll _ rest = _
    rw [ih fun p mem => within p (List.mem_cons_of_mem _ mem), Frame.stream]
    simp only [List.append_assoc]

/-- A codec that holds the first bytes of the frames of payloads, when some bytes are yet to come. -/
structure Amid (c : FrameCodec) (buffer : Bytes) (payloads : List Bytes) (more : Bytes) : Prop where
  sound : c.Sound
  within : ∀ p ∈ payloads, p.length ≤ c.limit
  stream : c.held buffer ++ more = Frame.stream payloads

namespace Amid

variable {c : FrameCodec} {buffer more payload : Bytes} {payloads rest : List Bytes}

theorem head_append (amid : c.Amid buffer (payload :: rest) more) :
    Frame.head c.limit (c.held buffer ++ more) = .whole payload (Frame.stream rest) := by
  have within := amid.within payload (List.mem_cons_self ..)
  exact Frame.head_eq_whole_iff.mpr ⟨within, c.lt_of_le_limit within, amid.stream⟩

/-- Bytes enough for the first frame begin with it. -/
theorem head_eq_whole (amid : c.Amid buffer (payload :: rest) more)
    (enough : Frame.lengthSize + payload.length ≤ (c.held buffer).length) :
    ∃ left, Frame.head c.limit (c.held buffer) = .whole payload left := by
  have within := amid.within payload (List.mem_cons_self ..)
  have stream : c.held buffer <+: Frame.stream (payload :: rest) :=
    amid.stream ▸ List.prefix_append _ _
  have frame : BigEndian.encode Frame.lengthSize payload.length ++ payload <+: c.held buffer := by
    refine List.prefix_of_prefix_length_le (List.prefix_append _ (Frame.stream rest)) stream ?_
    rwa [List.length_append, BigEndian.length_encode]
  obtain ⟨left, bytes⟩ := frame
  exact ⟨left, Frame.head_eq_whole_iff.mpr ⟨within, c.lt_of_le_limit within, bytes.symm⟩⟩

/-- A call gives the first payload, or finds too few bytes for its frame. -/
theorem decode_cases (amid : c.Amid buffer payloads more) :
    (∃ payload rest, payloads = payload :: rest ∧
      (c.decode buffer).result = .ok (some payload) ∧
      (c.decode buffer).codec = c.awaiting none ∧
      (c.decode buffer).buffer ++ more = Frame.stream rest) ∨
    (c.decode buffer).result = .ok none ∧ Frame.Wants (c.held buffer) payloads := by
  rw [decode_eq_answer amid.sound, answer]
  cases payloads with
  | nil =>
    obtain ⟨nothing, -⟩ := List.append_eq_nil_iff.mp amid.stream
    rw [nothing, Frame.head_eq_shortLength_iff.mpr (by decide)]
    exact .inr ⟨rfl, fun _ mem => by cases mem⟩
  | cons payload rest =>
    have later := amid.head_append
    have wants : (∀ left, Frame.head c.limit (c.held buffer) ≠ .whole payload left) →
        Frame.Wants (c.held buffer) (payload :: rest) := by
      intro short p mem
      obtain rfl := Option.some.inj mem
      by_contra enough
      obtain ⟨left, whole⟩ := amid.head_eq_whole (not_lt.mp enough)
      exact short left whole
    cases hh : Frame.head c.limit (c.held buffer) with
    | shortLength => exact .inr ⟨rfl, wants (by simp [hh])⟩
    | shortPayload size received => exact .inr ⟨rfl, wants (by simp [hh])⟩
    | oversized size left => cases later.symm.trans (Frame.head_append_of_oversized hh more)
    | whole p left =>
      obtain ⟨rfl, stream⟩ := FrameHead.whole.inj
        ((Frame.head_append_of_whole hh more).symm.trans later)
      exact .inl ⟨_, rest, rfl, rfl, rfl, stream⟩

/-- What the calls after a chunk leave: the payloads whose frames are complete have been given. -/
structure Drained (c : FrameCodec) (payloads : List Bytes) (more : Bytes) (given : List Bytes)
    (last : Step Unit) : Prop where
  result : last.result = .ok ()
  limit : last.codec.limit = c.limit
  begins : given <+: payloads
  amid : last.codec.Amid last.buffer (payloads.drop given.length) more
  wants : Frame.Wants (last.codec.held last.buffer) (payloads.drop given.length)

theorem drain {c : FrameCodec} {buffer more : Bytes} {payloads : List Bytes}
    (amid : c.Amid buffer payloads more) {given : List Bytes} {last : Step Unit}
    (h : c.drain false buffer = (given, last)) : Drained c payloads more given last := by
  fun_induction FrameCodec.drain c false buffer generalizing payloads given last with
  | @case1 c buffer step e result =>
    have failed : (c.decode buffer).result = .error e := result
    obtain ⟨_, _, -, given, -⟩ | ⟨none, -⟩ := amid.decode_cases
    · cases failed.symm.trans given
    · cases failed.symm.trans none
  | @case2 c buffer step result =>
    cases h
    have nothing : (c.decode buffer).result = .ok none := result
    obtain ⟨_, _, -, given, -⟩ | ⟨-, wants⟩ := amid.decode_cases
    · cases nothing.symm.trans given
    · obtain ⟨sound, limit, held⟩ := decode_none amid.sound nothing
      refine ⟨rfl, limit, List.nil_prefix, ⟨sound, ?_, ?_⟩, ?_⟩
      · exact fun p mem => (amid.within p mem).trans_eq limit.symm
      · exact held ▸ amid.stream
      · exact held ▸ wants
  | @case3 c buffer step payload result later last' drained ih =>
    cases h
    have some : (c.decode buffer).result = .ok (some payload) := result
    obtain ⟨first, rest, rfl, given, codec, stream⟩ | ⟨none, -⟩ := amid.decode_cases
    · cases some.symm.trans given
      have next : step.codec.Amid step.buffer rest more := by
        have awaiting : step.codec = c.awaiting none := codec
        rw [awaiting]
        exact ⟨awaiting_none_sound c, fun p mem => amid.within p (List.mem_cons_of_mem _ mem), stream⟩
      obtain ⟨ok, limit, given', amid', wants⟩ := ih next drained
      have same : step.codec.limit = c.limit := by
        have awaiting : step.codec = c.awaiting none := codec
        rw [awaiting]
        rfl
      exact ⟨ok, limit.trans same, List.cons_prefix_cons.mpr ⟨rfl, given'⟩, amid', wants⟩
    · cases some.symm.trans none

end Amid

/-- The payloads that the calls after each chunk give, up to the first error, and what the last of the
calls leaves. -/
def receive (c : FrameCodec) (buffer : Bytes) : List Bytes → List (List Bytes) × Step Unit
  | [] => ([], ⟨.ok (), c, buffer⟩)
  | chunk :: rest =>
    let (payloads, last) := c.drain false (buffer ++ chunk)
    match last.result with
    | .error _ => ([payloads], last)
    | .ok () =>
      let (later, final) := receive last.codec last.buffer rest
      (payloads :: later, final)

/-- All payloads that chunks hold the frames of are given, those that are complete after the first
chunks with these. -/
structure Receives (chunks payloads : List Bytes) (held : Bytes) (given : List (List Bytes))
    (final : Step Unit) : Prop where
  all : given.flatten = payloads
  count : given.length = chunks.length
  result : final.result = .ok ()
  buffer : final.buffer = []
  pending : final.codec.pending = none
  prompt : ∀ k j, (Frame.stream (payloads.take j)).length ≤
    held.length + (chunks.take k).flatten.length → payloads.take j <+: (given.take k).flatten

theorem eq_nil_of_held_eq_nil {c : FrameCodec} {buffer : Bytes} (h : c.held buffer = []) :
    c.pending = none ∧ buffer = [] := by
  unfold held at h
  split at h
  next none => exact ⟨none, h⟩
  next size _ =>
    have length := congrArg List.length (List.append_eq_nil_iff.mp h).1
    rw [BigEndian.length_encode] at length
    cases length

theorem Amid.receive {c : FrameCodec} {buffer : Bytes} {chunks payloads : List Bytes}
    (amid : c.Amid buffer payloads chunks.flatten) (wants : Frame.Wants (c.held buffer) payloads) :
    Receives chunks payloads (c.held buffer) (c.receive buffer chunks).1
      (c.receive buffer chunks).2 := by
  induction chunks generalizing c buffer payloads with
  | nil =>
    have whole : c.held buffer = Frame.stream payloads := by
      rw [← amid.stream, List.flatten_nil, List.append_nil]
    obtain rfl := wants.eq_nil (whole ▸ le_rfl)
    obtain ⟨pending, empty⟩ := eq_nil_of_held_eq_nil whole
    exact ⟨rfl, rfl, rfl, empty, pending, fun _ _ _ => by rw [List.take_nil]; exact List.nil_prefix⟩
  | cons chunk rest ih =>
    have fed : c.Amid (buffer ++ chunk) payloads rest.flatten := by
      refine ⟨amid.sound, amid.within, ?_⟩
      rw [c.held_append, List.append_assoc, ← List.flatten_cons, amid.stream]
    obtain ⟨given, last, drained⟩ : ∃ given last, c.drain false (buffer ++ chunk) = (given, last) :=
      ⟨_, _, rfl⟩
    obtain ⟨ok, -, ⟨left, rfl⟩, amid', wants'⟩ := fed.drain drained
    rw [List.drop_left] at amid' wants'
    have later := ih amid' wants'
    have received : c.receive buffer (chunk :: rest) =
        (given :: (last.codec.receive last.buffer rest).1,
          (last.codec.receive last.buffer rest).2) := by
      simp only [FrameCodec.receive, drained, ok]
    have split : (c.held buffer).length + chunk.length =
        (Frame.stream given).length + (last.codec.held last.buffer).length := by
      have bytes := fed.stream
      rw [Frame.stream_append, ← amid'.stream, ← List.append_assoc, c.held_append] at bytes
      have lengths := congrArg List.length (List.append_cancel_right bytes)
      rwa [List.length_append, List.length_append] at lengths
    rw [received]
    refine ⟨?_, ?_, later.result, later.buffer, later.pending, fun k j fits => ?_⟩
    · rw [List.flatten_cons, later.all]
    · rw [List.length_cons, List.length_cons, later.count]
    · cases k with
      | zero =>
        have none := (wants.take j).eq_nil fits
        rw [none]
        exact List.nil_prefix
      | succ k =>
        rw [List.take_succ_cons, List.flatten_cons]
        by_cases complete : j ≤ given.length
        · rw [List.take_append_of_le_length complete]
          exact (List.take_prefix j given).trans (List.prefix_append _ _)
        · obtain ⟨i, rfl⟩ := Nat.exists_eq_add_of_le (not_le.mp complete).le
          rw [Frame.length_stream_take_add, List.take_left, List.drop_left, List.take_succ_cons,
            List.flatten_cons, List.length_append] at fits
          have prompt := later.prompt k i (by omega)
          rw [List.take_length_add_append]
          exact List.prefix_append_right_inj given |>.mpr prompt

/-- Payloads within the limits of both sides, encoded one after another, are the frames of each of them
one after another. Wherever these bytes are cut, the payloads come out in order, each with the chunk
that has its last byte at the latest, and nothing is left. -/
theorem receive_stream (a b : Nat) (payloads : List Bytes)
    (within : ∀ p ∈ payloads, p.length ≤ min a Frame.maxPayload ∧ p.length ≤ min b Frame.maxPayload) :
    ∃ frames stream, payloads.mapM Frame.encode = .ok frames ∧ frames.flatten = stream ∧
      (withLimit a).encodeAll [] payloads = ⟨.ok (), withLimit a, stream⟩ ∧
      ∀ chunks : List Bytes, chunks.flatten = stream →
        let (given, final) := (withLimit b).receive [] chunks
        given.flatten = payloads ∧ given.length = chunks.length ∧ final.result = .ok () ∧
          final.buffer = [] ∧ final.codec.pending = none ∧
          (final.codec.decodeEnd final.buffer).result = .ok none ∧
          ∀ k j, (Frame.stream (payloads.take j)).length ≤ (chunks.take k).flatten.length →
            payloads.take j <+: (given.take k).flatten := by
  obtain ⟨frames, framed, flat⟩ :=
    Frame.mapM_encode fun p mem => (within p mem).1.trans (Nat.min_le_right ..)
  have encoded := encodeAll_eq (c := withLimit a) (fun p mem => (within p mem).1) []
  refine ⟨frames, _, framed, flat, encoded, fun chunks cut => ?_⟩
  have amid : (withLimit b).Amid [] payloads chunks.flatten :=
    ⟨withLimit_sound b, fun p mem => (within p mem).2, cut⟩
  have wants : Frame.Wants ((withLimit b).held []) payloads :=
    fun p _ => Nat.lt_add_right _ (show 0 < Frame.lengthSize by decide)
  have receives := amid.receive wants
  refine ⟨receives.all, receives.count, receives.result, receives.buffer, receives.pending, ?_, ?_⟩
  · have ended := receives.buffer
    have pending := receives.pending
    generalize (withLimit b).receive [] chunks = received at ended pending
    simp [decodeEnd, decode, ended, pending, Frame.lengthSize]
  · intro k j fits
    exact receives.prompt k j (by simpa [held, withLimit] using fits)

/-- The first payload is empty, and the length of the second is cut in two. -/
theorem receive_stream_of_empty_then_cut :
    let payloads : List Bytes := [[], [1, 2, 3]]
    (∀ p ∈ payloads, p.length ≤ min 3 Frame.maxPayload ∧ p.length ≤ min 8 Frame.maxPayload) ∧
      (withLimit 3).encodeAll [] payloads =
        ⟨.ok (), withLimit 3, [0, 0, 0, 0, 0, 0, 0, 3, 1, 2, 3]⟩ ∧
      ((withLimit 8).receive [] [[0, 0, 0, 0, 0], [], [0, 0, 3, 1, 2], [3]]).1.flatten =
        payloads := by
  intro payloads
  have within : ∀ p ∈ payloads,
      p.length ≤ min 3 Frame.maxPayload ∧ p.length ≤ min 8 Frame.maxPayload := by decide
  obtain ⟨frames, stream, -, -, encoded, cuts⟩ := receive_stream 3 8 payloads within
  have bytes : stream = [0, 0, 0, 0, 0, 0, 0, 3, 1, 2, 3] := congrArg Step.buffer (encoded.symm.trans rfl)
  have given := cuts [[0, 0, 0, 0, 0], [], [0, 0, 3, 1, 2], [3]] bytes.symm
  exact ⟨within, bytes ▸ encoded, given.1⟩

end FrameCodec

end EvidenceExchange
