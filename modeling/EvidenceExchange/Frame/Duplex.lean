import EvidenceExchange.Frame.Codec

namespace EvidenceExchange

/-- A codec between two buffers: what has come in and is not used yet, and what is to go out. -/
structure Duplex where
  codec : FrameCodec
  incoming : Bytes
  outgoing : Bytes

namespace Duplex

def new (codec : FrameCodec) : Duplex := ⟨codec, [], []⟩

inductive Call where
  | feed (data : Bytes)
  | decode
  | decodeEnd
  | encode (payload : Bytes)
  /-- Everything that is to go out comes in. -/
  | loopBack

inductive Answer where
  | done
  | payload (found : Option Bytes)
  deriving DecidableEq

def ofStep (d : Duplex) (step : FrameCodec.Step (Option Bytes)) : Except FrameError Answer × Duplex :=
  (step.result.map .payload, { d with codec := step.codec, incoming := step.buffer })

def apply (d : Duplex) : Call → Except FrameError Answer × Duplex
  | .feed data => (.ok .done, { d with incoming := d.incoming ++ data })
  | .decode => d.ofStep (d.codec.decode d.incoming)
  | .decodeEnd => d.ofStep (d.codec.decodeEnd d.incoming)
  | .encode payload =>
    let step := d.codec.encode payload d.outgoing
    (step.result.map fun _ => .done, { d with codec := step.codec, outgoing := step.buffer })
  | .loopBack => (.ok .done, { d with incoming := d.incoming ++ d.outgoing, outgoing := [] })

end Duplex

end EvidenceExchange
