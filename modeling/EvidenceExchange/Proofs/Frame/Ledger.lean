import EvidenceExchange.Frame.Duplex
import EvidenceExchange.Proofs.Frame.Grammar

namespace EvidenceExchange

namespace FrameCodec

/-- A call that gives no payload has not enough bytes for one. -/
theorem short_of_decode_none {c : FrameCodec} (sound : c.Sound) {buffer : Bytes}
    (h : (c.decode buffer).result = .ok none) :
    (c.decode buffer).codec.pending = none ∧ (c.decode buffer).buffer.length < Frame.lengthSize ∨
      ∃ size, (c.decode buffer).codec.pending = some size ∧
        (c.decode buffer).buffer.length < size := by
  rw [decode_eq_answer sound, answer] at h ⊢
  cases hh : Frame.head c.limit (c.held buffer) with
  | shortLength => exact .inl ⟨rfl, Frame.head_eq_shortLength_iff.mp hh⟩
  | oversized size rest => simp [hh] at h
  | shortPayload size received =>
    obtain ⟨-, -, less, -⟩ := Frame.head_eq_shortPayload_iff.mp hh
    exact .inr ⟨size, rfl, less⟩
  | whole payload rest => simp [hh] at h

end FrameCodec

namespace Duplex

/-- What has become of bytes that the codec has done with. -/
inductive Entry where
  | returned (payload : Bytes)
  | refused (size : Nat)
  | forgotten (size : Nat)

namespace Entry

def bytes : Entry → Bytes
  | returned payload => BigEndian.encode Frame.lengthSize payload.length ++ payload
  | refused size | forgotten size => BigEndian.encode Frame.lengthSize size

/-- What an answer to a call for the next payload says has become of bytes. -/
def ofAnswer : Except FrameError Answer → List Entry
  | .ok (.payload (some payload)) => [returned payload]
  | .error (.payloadTooLarge size _) => [refused size]
  | .error (.truncatedPayload size _) => [forgotten size]
  | _ => []

/-- Lengths above the limit are refused, and no other ones. -/
def Obeys (limit : Nat) : Entry → Prop
  | returned payload => payload.length ≤ limit
  | refused size => limit < size
  | forgotten size => size ≤ limit

end Entry

/-- The bytes that a call brings in. -/
def brings (d : Duplex) : Call → Bytes
  | .feed data => data
  | .loopBack => d.outgoing
  | .decode | .decodeEnd | .encode _ => []

/-- What the answer to a call says has become of bytes that came in before. -/
def entries (d : Duplex) (call : Call) : List Entry :=
  match call with
  | .decode | .decodeEnd => Entry.ofAnswer (d.apply call).1
  | .feed _ | .encode _ | .loopBack => []

/-- What calls one after another leave. -/
def after (d : Duplex) : List Call → Duplex
  | [] => d
  | call :: rest => after (d.apply call).2 rest

/-- All bytes that calls one after another bring in. -/
def fed (d : Duplex) : List Call → Bytes
  | [] => []
  | call :: rest => d.brings call ++ fed (d.apply call).2 rest

/-- What has become of them, in the order of the answers. -/
def ledger (d : Duplex) : List Call → List Entry
  | [] => []
  | call :: rest => d.entries call ++ ledger (d.apply call).2 rest

/-- The bytes that have come in and are not done with. -/
def held (d : Duplex) : Bytes := d.codec.held d.incoming

/-- Some bytes, as far as a codec has done with them, are entered, and it holds the others. -/
structure Balances (limit : Nat) (bytes : Bytes) (entries : List Entry) (d : Duplex) : Prop where
  sound : d.codec.Sound
  limit_eq : d.codec.limit = limit
  balance : bytes = entries.flatMap Entry.bytes ++ d.held
  obeys : ∀ e ∈ entries, e.Obeys limit

theorem decode_balances {d : Duplex} (sound : d.codec.Sound) :
    (d.apply .decode).2.Balances d.codec.limit d.held (d.entries .decode) := by
  have answers := FrameCodec.decode_eq_answer sound d.incoming
  simp only [entries, apply, ofStep, answers]
  unfold FrameCodec.answer
  change Balances _ (d.codec.held d.incoming) _ _
  cases hh : Frame.head d.codec.limit (d.codec.held d.incoming) with
  | shortLength => exact ⟨FrameCodec.awaiting_none_sound _, rfl, rfl, fun _ mem => by cases mem⟩
  | oversized size rest =>
    obtain ⟨above, -, bytes⟩ := Frame.head_eq_oversized_iff.mp hh
    refine ⟨FrameCodec.awaiting_none_sound _, rfl, ?_, fun e mem => ?_⟩
    · rw [bytes]
      rfl
    · obtain rfl := List.mem_singleton.mp mem
      exact above
  | shortPayload size received =>
    obtain ⟨within, -, -, bytes⟩ := Frame.head_eq_shortPayload_iff.mp hh
    refine ⟨?_, rfl, bytes, fun _ mem => by cases mem⟩
    intro n hn
    exact Option.some.inj hn ▸ within
  | whole payload rest =>
    obtain ⟨within, -, bytes⟩ := Frame.head_eq_whole_iff.mp hh
    refine ⟨FrameCodec.awaiting_none_sound _, rfl, ?_, fun e mem => ?_⟩
    · rw [bytes]
      simp [Entry.ofAnswer, Except.map, Entry.bytes, Duplex.held, FrameCodec.held, FrameCodec.awaiting]
    · obtain rfl := List.mem_singleton.mp mem
      exact within

/-- At the end of the stream a length that is awaited in vain is forgotten. -/
theorem decodeEnd_balances {d : Duplex} (sound : d.codec.Sound) :
    (d.apply .decodeEnd).2.Balances d.codec.limit d.held (d.entries .decodeEnd) := by
  have balances := decode_balances sound
  simp only [entries, apply, ofStep] at balances ⊢
  unfold FrameCodec.decodeEnd
  generalize d.codec.decode d.incoming = step at balances
  dsimp only
  split
  next none =>
    rw [none] at balances
    obtain ⟨sound', limit, balance, -⟩ := balances
    split
    next size pending =>
      refine ⟨FrameCodec.awaiting_none_sound _, limit, ?_, fun e mem => ?_⟩
      · rw [balance]
        simp [Entry.ofAnswer, Except.map, Entry.bytes, Duplex.held, FrameCodec.held, pending]
      · obtain rfl := List.mem_singleton.mp mem
        exact (sound' size pending).trans_eq limit
    next pending =>
      split
      next =>
        rw [none]
        exact ⟨sound', limit, balance, fun _ mem => by cases mem⟩
      next => exact ⟨sound', limit, balance, fun _ mem => by cases mem⟩
  next => exact balances

theorem apply_balances {d : Duplex} (sound : d.codec.Sound) (call : Call) :
    (d.apply call).2.Balances d.codec.limit (d.held ++ d.brings call) (d.entries call) := by
  cases call with
  | feed data =>
    exact ⟨sound, rfl, (d.codec.held_append d.incoming data).symm, fun _ mem => by cases mem⟩
  | decode =>
    rw [brings, List.append_nil]
    exact decode_balances sound
  | decodeEnd =>
    rw [brings, List.append_nil]
    exact decodeEnd_balances sound
  | encode payload =>
    rw [brings, List.append_nil]
    exact ⟨sound, rfl, rfl, fun _ mem => by cases mem⟩
  | loopBack =>
    exact ⟨sound, rfl, (d.codec.held_append d.incoming d.outgoing).symm, fun _ mem => by cases mem⟩

theorem after_balances {d : Duplex} (sound : d.codec.Sound) (calls : List Call) :
    (d.after calls).Balances d.codec.limit (d.held ++ d.fed calls) (d.ledger calls) := by
  induction calls generalizing d with
  | nil => exact ⟨sound, rfl, List.append_nil _, fun _ mem => by cases mem⟩
  | cons call rest ih =>
    obtain ⟨sound', limit, balance, obeys⟩ := apply_balances sound call
    have later := ih sound'
    rw [limit] at later
    refine ⟨later.sound, later.limit_eq, ?_, fun e mem => ?_⟩
    · rw [fed, ← List.append_assoc, balance, List.append_assoc, later.balance, ledger, after,
        List.flatMap_append, List.append_assoc]
    · obtain mem | mem := List.mem_append.mp mem
      · exact obeys e mem
      · exact later.obeys e mem

/-- After any calls, the bytes that have come in are those of what was returned, refused and forgotten,
one after another, then the length that is awaited, and then the buffer. A payload that is returned
and a length that is awaited are within the limit, and a length that is refused is not. A call that gives
no payload leaves too little for one. -/
theorem fed_eq_ledger_append_held (limit : Nat) (calls : List Call) :
    let start := new (.withLimit limit)
    let d := start.after calls
    start.fed calls = (start.ledger calls).flatMap Entry.bytes ++
        (d.codec.pending.elim [] (BigEndian.encode Frame.lengthSize) ++ d.incoming) ∧
      (∀ size, d.codec.pending = some size → size ≤ min limit Frame.maxPayload) ∧
      (∀ e ∈ start.ledger calls, e.Obeys (min limit Frame.maxPayload)) ∧
      ∀ d', d.apply .decode = (.ok (.payload none), d') →
        d'.codec.pending = none ∧ d'.incoming.length < Frame.lengthSize ∨
          ∃ size, d'.codec.pending = some size ∧ d'.incoming.length < size := by
  intro start d
  have balances : d.Balances (min limit Frame.maxPayload) (start.fed calls) (start.ledger calls) :=
    after_balances (d := start) (FrameCodec.withLimit_sound limit) calls
  refine ⟨?_, fun size pending => ?_, balances.obeys, fun d' answer => ?_⟩
  · have held : d.held = d.codec.pending.elim [] (BigEndian.encode Frame.lengthSize) ++ d.incoming := by
      unfold Duplex.held FrameCodec.held
      cases d.codec.pending <;> rfl
    rw [balances.balance, held]
  · exact (balances.sound size pending).trans_eq balances.limit_eq
  · obtain ⟨told, rfl⟩ := Prod.mk.inj answer
    refine FrameCodec.short_of_decode_none balances.sound ?_
    cases result : (d.codec.decode d.incoming).result with
    | error e => simp [result, Except.map] at told
    | ok found =>
      rw [result] at told
      cases told
      rfl

end Duplex

end EvidenceExchange
