import EvidenceExchange.Bytes
import EvidenceExchange.IoError

namespace EvidenceExchange

inductive FrameError where
  | payloadTooLarge (size max : Nat)
  | truncatedLength (received : Nat)
  | truncatedPayload (expected received : Nat)
  | io (cause : IoError)
  deriving DecidableEq

namespace FrameError

/-- Whether the peer ended the stream inside a frame, or before one. -/
def isMalformed : FrameError → Bool
  | truncatedLength _ | truncatedPayload _ _ => true
  | _ => false

def message : FrameError → String
  | payloadTooLarge size max =>
    "payload too large: " ++ toString size ++ " bytes (max " ++ toString max ++ ")"
  | truncatedLength received =>
    "malformed frame: stream ended after " ++ toString received ++ " of 4 length-prefix bytes"
  | truncatedPayload expected received =>
    "malformed frame: truncated payload, declared " ++ toString expected ++ " bytes, got " ++
      toString received
  | io cause => "I/O error: " ++ cause.message

def source? : FrameError → Option IoError
  | io cause => some cause
  | _ => none

end FrameError

namespace Frame

/-- The bytes of the length in front of a payload. -/
def lengthSize : Nat := 4

def maxPayload : Nat := 1048576

def checkSize (size max : Nat) : Except FrameError Unit :=
  if size > max then .error (.payloadTooLarge size max) else .ok ()

/-- Puts the frame of a payload at the end of a buffer. What is refused is refused before anything is
put there. -/
def put (max : Nat) (payload buffer : Bytes) : Except FrameError Unit × Bytes :=
  match checkSize payload.length max with
  | .error e => (.error e, buffer)
  | .ok () => (.ok (), buffer ++ BigEndian.encode lengthSize payload.length ++ payload)

/-- The frame of a payload within the given limit. -/
def encodeWithin (max : Nat) (payload : Bytes) : Except FrameError Bytes :=
  let (result, frame) := put max payload []
  result.map fun _ => frame

def encode (payload : Bytes) : Except FrameError Bytes :=
  encodeWithin maxPayload payload

end Frame

end EvidenceExchange
