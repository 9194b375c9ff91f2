import EvidenceExchange.Proofs.Frame.Grammar

namespace EvidenceExchange.FrameCodec

/-- One call, while the stream goes on or when it is over. -/
def next (c : FrameCodec) (ended : Bool) (buffer : Bytes) : Step (Option Bytes) :=
  if ended then c.decodeEnd buffer else c.decode buffer

/-- A length that is awaited and consumes nothing counts, too. -/
def weight (c : FrameCodec) (buffer : Bytes) : Nat :=
  2 * buffer.length + c.pending.toList.length

theorem takePayload_weight {c : FrameCodec} {size : Nat} {buffer payload : Bytes}
    (h : (c.takePayload size buffer).result = .ok (some payload)) :
    (c.takePayload size buffer).codec.weight (c.takePayload size buffer).buffer ≤
      2 * buffer.length := by
  unfold takePayload at h ⊢
  split at h
  next => cases h
  next hb =>
    rw [if_neg hb]
    simp only [weight, List.length_drop, Option.toList_none, List.length_nil]
    omega

/-- A payload comes from an awaited length or from one that the buffer begins with. -/
theorem decode_eq_takePayload {c : FrameCodec} {buffer payload : Bytes}
    (h : (c.decode buffer).result = .ok (some payload)) :
    (∃ size, c.pending = some size ∧ c.decode buffer = c.takePayload size buffer) ∨
      (Frame.lengthSize ≤ buffer.length ∧ c.pending = none ∧
        ∃ size, c.decode buffer = c.takePayload size (buffer.drop Frame.lengthSize)) := by
  unfold decode at h ⊢
  cases hp : c.pending with
  | some size => exact .inl ⟨size, rfl, rfl⟩
  | none =>
    rw [hp] at h
    by_cases hshort : (buffer.take Frame.lengthSize).length < Frame.lengthSize
    · simp only [hshort, if_true] at h
      cases h
    · simp only [hshort, if_false] at h ⊢
      split at h
      next => cases h
      next hok =>
        rw [List.length_take] at hshort
        exact .inr ⟨by omega, trivial, _, rfl⟩

theorem decode_weight {c : FrameCodec} {buffer payload : Bytes}
    (h : (c.decode buffer).result = .ok (some payload)) :
    (c.decode buffer).codec.weight (c.decode buffer).buffer < c.weight buffer := by
  obtain ⟨size, hp, he⟩ | ⟨hlong, hp, size, he⟩ := decode_eq_takePayload h
  · rw [he] at h ⊢
    have hle := takePayload_weight h
    have hw : c.weight buffer = 2 * buffer.length + 1 := by simp [weight, hp]
    omega
  · rw [he] at h ⊢
    have hle := takePayload_weight h
    have hw : c.weight buffer = 2 * buffer.length := by simp [weight, hp]
    rw [List.length_drop] at hle
    have hpos : 0 < Frame.lengthSize := by decide
    omega

theorem decodeEnd_eq_decode {c : FrameCodec} {buffer payload : Bytes}
    (h : (c.decodeEnd buffer).result = .ok (some payload)) :
    c.decodeEnd buffer = c.decode buffer := by
  unfold decodeEnd at h ⊢
  simp only at h ⊢
  split at h
  next hr =>
    split at h
    next => cases h
    next =>
      split at h
      next => rw [hr] at h; cases h
      next => cases h
  next => rfl

theorem next_weight {c : FrameCodec} {ended : Bool} {buffer payload : Bytes}
    (h : (c.next ended buffer).result = .ok (some payload)) :
    (c.next ended buffer).codec.weight (c.next ended buffer).buffer < c.weight buffer := by
  cases ended with
  | false => exact decode_weight h
  | true =>
    have he : c.next true buffer = c.decode buffer := decodeEnd_eq_decode h
    rw [he] at h ⊢
    exact decode_weight h

/-- Calls until no payload is given: the payloads, and what the last call leaves. -/
def drain (c : FrameCodec) (ended : Bool) (buffer : Bytes) : List Bytes × Step Unit :=
  let step := c.next ended buffer
  match _h : step.result with
  | .error e => ([], ⟨.error e, step.codec, step.buffer⟩)
  | .ok none => ([], ⟨.ok (), step.codec, step.buffer⟩)
  | .ok (some payload) =>
    let (payloads, last) := drain step.codec ended step.buffer
    (payload :: payloads, last)
termination_by c.weight buffer
decreasing_by exact next_weight _h

/-- The payloads of a stream that comes in chunks, up to the first error or the end, and how it
ends. -/
def feed (c : FrameCodec) (buffer : Bytes) : List Bytes → List Bytes × Except FrameError Unit
  | [] =>
    let (payloads, last) := c.drain true buffer
    (payloads, last.result)
  | chunk :: rest =>
    let (payloads, last) := c.drain false (buffer ++ chunk)
    match last.result with
    | .error e => (payloads, .error e)
    | .ok () =>
      Frame.followedBy payloads (feed last.codec last.buffer rest)

theorem head_of_payload {c : FrameCodec} (sound : c.Sound) {buffer payload : Bytes}
    (h : (c.decode buffer).result = .ok (some payload)) :
    Frame.head c.limit (c.held buffer) = .whole payload (c.decode buffer).buffer ∧
      (c.decode buffer).codec = c.awaiting none := by
  rw [decode_eq_answer sound, answer] at h ⊢
  cases hh : Frame.head c.limit (c.held buffer) <;> simp_all

theorem head_of_error {c : FrameCodec} (sound : c.Sound) {buffer : Bytes} {e : FrameError}
    (h : (c.decode buffer).result = .error e) :
    ∃ size rest, Frame.head c.limit (c.held buffer) = .oversized size rest ∧
      e = .payloadTooLarge size c.limit := by
  rw [decode_eq_answer sound, answer] at h
  cases hh : Frame.head c.limit (c.held buffer) <;> simp_all

/-- At the end of the stream a call without a payload tells what the bytes held lack. -/
theorem parse_of_end {c : FrameCodec} (sound : c.Sound) {buffer : Bytes}
    (h : ∀ payload, (c.decodeEnd buffer).result ≠ .ok (some payload)) :
    Frame.parse c.limit (c.held buffer) = ([], (c.decodeEnd buffer).result.map fun _ => ()) := by
  have hd := decode_eq_answer sound buffer
  unfold decodeEnd at h ⊢
  cases hh : Frame.head c.limit (c.held buffer) with
  | shortLength =>
    rw [Frame.parse_of_shortLength hh]
    rw [answer, hh] at hd
    simp only [hd, awaiting, List.isEmpty_iff]
    split <;> rfl
  | oversized size rest =>
    rw [Frame.parse_of_oversized hh]
    rw [answer, hh] at hd
    simp only [hd]
    rfl
  | shortPayload size received =>
    rw [Frame.parse_of_shortPayload hh]
    rw [answer, hh] at hd
    simp only [hd, awaiting]
    rfl
  | whole payload rest =>
    rw [answer, hh] at hd
    exact absurd (by simp only [hd]) (h payload)

/-- What the calls after a chunk give stays true when more bytes follow. -/
theorem parse_of_drain {c : FrameCodec} (sound : c.Sound) (buffer more : Bytes)
    {payloads : List Bytes} {last : Step Unit} (h : c.drain false buffer = (payloads, last)) :
    (∀ e, last.result = .error e →
      Frame.parse c.limit (c.held buffer ++ more) = (payloads, .error e)) ∧
    (last.result = .ok () → last.codec.Sound ∧ last.codec.limit = c.limit ∧
      Frame.parse c.limit (c.held buffer ++ more) =
        Frame.followedBy payloads (Frame.parse c.limit (last.codec.held last.buffer ++ more))) := by
  fun_induction drain c false buffer generalizing payloads last with
  | case1 c buffer step e hr =>
    cases h
    refine ⟨fun e' he => ?_, fun he => by cases he⟩
    cases he
    obtain ⟨size, rest, hh, rfl⟩ := head_of_error sound hr
    exact Frame.parse_of_oversized (Frame.head_append_of_oversized hh more)
  | case2 c buffer step hr =>
    cases h
    refine ⟨fun e he => (by cases he), fun _ => ?_⟩
    obtain ⟨hs, hl, hk⟩ := decode_none sound hr
    refine ⟨hs, hl, ?_⟩
    change _ = Frame.followedBy [] (Frame.parse c.limit ((c.decode buffer).codec.held
      (c.decode buffer).buffer ++ more))
    rw [hk]
    rfl
  | case3 c buffer step payload hr rest last' hd ih =>
    cases h
    obtain ⟨hh, hc⟩ := head_of_payload sound hr
    have hcodec : step.codec = c.awaiting none := hc
    have hparse := Frame.parse_of_whole (Frame.head_append_of_whole hh more)
    rw [hcodec] at hd ih
    obtain ⟨ihe, iho⟩ := ih (awaiting_none_sound c) hd
    refine ⟨fun e he => ?_, fun he => ?_⟩
    · rw [hparse]
      change Frame.followedBy [payload] (Frame.parse c.limit ((c.awaiting none).held step.buffer ++
        more)) = _
      rw [show c.limit = (c.awaiting none).limit from rfl, ihe e he]
      rfl
    · obtain ⟨hs, hl, hp⟩ := iho he
      refine ⟨hs, hl, ?_⟩
      rw [hparse]
      change Frame.followedBy [payload] (Frame.parse (c.awaiting none).limit
        ((c.awaiting none).held step.buffer ++ more)) = _
      rw [hp]
      rfl

theorem parse_of_drain_end {c : FrameCodec} (sound : c.Sound) (buffer : Bytes) :
    Frame.parse c.limit (c.held buffer) =
      ((c.drain true buffer).1, (c.drain true buffer).2.result) := by
  fun_induction drain c true buffer with
  | case1 c buffer step e hr =>
    have hlast : (c.decodeEnd buffer).result = .error e := hr
    rw [parse_of_end sound (by simp [hlast]), hlast]
    rfl
  | case2 c buffer step hr =>
    have hlast : (c.decodeEnd buffer).result = .ok none := hr
    rw [parse_of_end sound (by simp [hlast]), hlast]
    rfl
  | case3 c buffer step payload hr rest last hd ih =>
    have hsame : step = c.decode buffer := decodeEnd_eq_decode hr
    obtain ⟨hh, hc⟩ := head_of_payload sound (hsame ▸ hr)
    rw [hsame, hc] at hd ih
    rw [Frame.parse_of_whole hh]
    change Frame.followedBy [payload] (Frame.parse (c.awaiting none).limit
      ((c.awaiting none).held (c.decode buffer).buffer)) = _
    rw [ih (awaiting_none_sound c), hd]
    rfl

theorem feed_eq_parse {c : FrameCodec} (sound : c.Sound) (buffer : Bytes) (chunks : List Bytes) :
    c.feed buffer chunks = Frame.parse c.limit (c.held buffer ++ chunks.flatten) := by
  induction chunks generalizing c buffer with
  | nil => simp [feed, parse_of_drain_end sound]
  | cons chunk rest ih =>
    have drained : c.drain false (buffer ++ chunk) =
      ((c.drain false (buffer ++ chunk)).1, (c.drain false (buffer ++ chunk)).2) := rfl
    obtain ⟨herror, hok⟩ := parse_of_drain sound (buffer ++ chunk) rest.flatten drained
    rw [List.flatten_cons, ← List.append_assoc, ← held_append, feed]
    simp only
    split
    next e he => exact (herror e he).symm
    next he =>
      obtain ⟨hs, hl, hp⟩ := hok he
      rw [hp, ih hs, hl]

/-- Wherever a stream is cut into chunks, empty ones among them, a new codec gives the payloads and
the ending of the stream read at once. -/
theorem feed_chunks_eq_parse_flatten (limit : Nat) (chunks : List Bytes) :
    (withLimit limit).feed [] chunks = Frame.parse (min limit Frame.maxPayload) chunks.flatten :=
  feed_eq_parse (withLimit_sound limit) [] chunks

end EvidenceExchange.FrameCodec
