import EvidenceExchange.Frame.Basic

namespace EvidenceExchange

/-- What a codec of frames remembers between two calls. -/
structure FrameCodec where
  /-- The length of the frame whose payload is awaited. -/
  pending : Option Nat
  limit : Nat
  limit_le : limit ≤ Frame.maxPayload
  deriving DecidableEq

namespace FrameCodec

/-- A codec for payloads up to the given size, and never above the largest of all frames. -/
def withLimit (limit : Nat) : FrameCodec :=
  ⟨none, min limit Frame.maxPayload, Nat.min_le_right ..⟩

def new : FrameCodec :=
  withLimit Frame.maxPayload

/-- What one call on a codec and its buffer leaves. -/
structure Step (α : Type) where
  result : Except FrameError α
  codec : FrameCodec
  buffer : Bytes

/-- Takes an awaited payload off the buffer, or leaves the codec awaiting it. -/
def takePayload (c : FrameCodec) (size : Nat) (buffer : Bytes) : Step (Option Bytes) :=
  if buffer.length < size then ⟨.ok none, { c with pending := some size }, buffer⟩
  else ⟨.ok (some (buffer.take size)), { c with pending := none }, buffer.drop size⟩

/-- The next payload, if the buffer holds all of it. A length above the limit is refused and
consumed. -/
def decode (c : FrameCodec) (buffer : Bytes) : Step (Option Bytes) :=
  match c.pending with
  | some size => c.takePayload size buffer
  | none =>
    let digits := buffer.take Frame.lengthSize
    if digits.length < Frame.lengthSize then ⟨.ok none, c, buffer⟩
    else
      let size := BigEndian.decode digits
      let rest := buffer.drop Frame.lengthSize
      match Frame.checkSize size c.limit with
      | .error e => ⟨.error e, c, rest⟩
      | .ok () => c.takePayload size rest

/-- The next payload of a stream that has ended: nothing at all, a whole payload, or an error that
says where the stream broke off. -/
def decodeEnd (c : FrameCodec) (buffer : Bytes) : Step (Option Bytes) :=
  let step := c.decode buffer
  match step.result with
  | .ok none =>
    match step.codec.pending with
    | some size =>
      ⟨.error (.truncatedPayload size step.buffer.length), { step.codec with pending := none },
        step.buffer⟩
    | none =>
      if step.buffer.isEmpty then step
      else ⟨.error (.truncatedLength step.buffer.length), step.codec, step.buffer⟩
  | _ => step

/-- Puts the frame of a payload at the end of a buffer. -/
def encode (c : FrameCodec) (payload buffer : Bytes) : Step Unit :=
  let (result, buffer) := Frame.put c.limit payload buffer
  ⟨result, c, buffer⟩

/-- Puts the frames of payloads at the end of a buffer, up to the first that is refused. -/
def encodeAll (c : FrameCodec) (buffer : Bytes) : List Bytes → Step Unit
  | [] => ⟨.ok (), c, buffer⟩
  | payload :: rest =>
    let step := c.encode payload buffer
    match step.result with
    | .ok () => step.codec.encodeAll step.buffer rest
    | .error _ => step

end FrameCodec

end EvidenceExchange
