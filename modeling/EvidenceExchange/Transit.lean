import EvidenceExchange.Evidence.Codec
import EvidenceExchange.Frame.Reader

namespace EvidenceExchange

/-- A change to some bytes. Positions past the end count from the start again. -/
inductive Damage where
  | truncate (length : Nat)
  | chop (count : Nat)
  | append (data : Bytes)
  | set (start : Nat) (data : Bytes)
  | insert (start : Nat) (data : Bytes)
  | delete (start count : Nat)

def Damage.apply (bytes : Bytes) : Damage → Bytes
  | truncate length => bytes.take length
  | chop count => bytes.take (bytes.length - count)
  | append data => bytes ++ data
  | set start data =>
    let i := start % max bytes.length 1
    (bytes.take i ++ data ++ bytes.drop (i + data.length)).take bytes.length
  | insert start data =>
    let i := start % (bytes.length + 1)
    bytes.take i ++ data ++ bytes.drop i
  | delete start count =>
    let i := start % max bytes.length 1
    bytes.take i ++ bytes.drop (i + count)

/-- Bytes in pieces of the given size, or in one piece if it is zero. -/
def Bytes.chunks (size : Nat) (bytes : Bytes) : List Bytes :=
  if size = 0 then [bytes]
  else
    (List.range ((bytes.length + size - 1) / size)).foldl
      (fun (done, rest) _ => (rest.take size :: done, rest.drop size)) ([], bytes) |>.1.reverse

/-- How far a bundle came. -/
inductive Transit where
  | notEncoded (cause : Evidence.CodecError)
  | notFramed (cause : FrameError)
  | notRead (cause : FrameError)
  | notDecoded (payload : Bytes) (cause : Evidence.CodecError)
  | arrived (payload : Bytes) (bundle : Evidence.Bundle)

def Transit.run (bundle : Evidence.Bundle) (payloadDamage frameDamage : List Damage)
    (chunkSize : Nat) : Transit :=
  match bundle.encode with
  | .error e => .notEncoded e
  | .ok payload =>
    match Frame.encode (payloadDamage.foldl Damage.apply payload) with
    | .error e => .notFramed e
    | .ok frame =>
      let damaged := frameDamage.foldl Damage.apply frame
      match (Frame.read ((damaged.chunks chunkSize).map .bytes)).1 with
      | .error e => .notRead e
      | .ok payload =>
        match Evidence.Bundle.decode payload with
        | .error e => .notDecoded payload e
        | .ok bundle => .arrived payload bundle

end EvidenceExchange
