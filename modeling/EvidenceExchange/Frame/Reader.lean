import EvidenceExchange.Frame.Codec

namespace EvidenceExchange

/-- What one read of a source gives; no bytes at all are the end of the stream. -/
inductive SourceRead where
  | bytes (chunk : Bytes)
  | failure (cause : IoError)
  deriving DecidableEq

/-- The memory of a buffer: the bytes that fit into it, and those in front of it that were used up and
may be taken back. -/
structure BufferSpace where
  capacity : Nat
  freed : Nat
  deriving DecidableEq

namespace BufferSpace

/-- Room for so many bytes more than those held. If what is in front is enough, it is taken back; if
not, all the memory grows to its double at least. -/
def reserve (s : BufferSpace) (held more : Nat) : BufferSpace :=
  if more ≤ s.capacity - held then s
  else if more ≤ s.capacity - held + s.freed ∧ held ≤ s.freed then ⟨s.capacity + s.freed, 0⟩
  else ⟨max (2 * (s.capacity + s.freed)) (s.freed + held + more) - s.freed, s.freed⟩

/-- Some bytes at the front are used up. -/
def free (s : BufferSpace) (count : Nat) : BufferSpace :=
  ⟨s.capacity - count, s.freed + count⟩

end BufferSpace

/-- A frame that is being read: the codec, the bytes it has not used yet, and the space for them. -/
structure FrameReader where
  codec : FrameCodec
  buffer : Array UInt8
  space : BufferSpace

namespace FrameReader

/-- The space that a reader begins with. -/
def firstSpace : BufferSpace := ⟨64, 0⟩

/-- The most bytes for which space is made at once. -/
def largestReserve : Nat := 65536

def new (codec : FrameCodec) : FrameReader := ⟨codec, #[], firstSpace⟩

/-- The most bytes that one read may take. -/
def room (r : FrameReader) : Nat := r.space.capacity - r.buffer.size

/-- The bytes without which the codec cannot go on. -/
def needed (r : FrameReader) : Nat := r.codec.pending.getD Frame.lengthSize

/-- The reader with space for more of the payload that it waits for. -/
def makeRoom (r : FrameReader) : FrameReader :=
  match r.codec.pending with
  | none => r
  | some size =>
    { r with
      space := r.space.reserve r.buffer.size (min (size - r.buffer.size) largestReserve) }

/-- The result, if the bytes taken so far decide it. -/
def poll (r : FrameReader) : Option (Except FrameError Bytes) × FrameReader :=
  if r.buffer.size < r.needed then (none, r.makeRoom)
  else
    let step := r.codec.decode r.buffer.toList
    let left : FrameReader :=
      ⟨step.codec, step.buffer.toArray, r.space.free (r.buffer.size - step.buffer.length)⟩
    match step.result with
    | .error e => (some (.error e), left)
    | .ok (some payload) => (some (.ok payload), left)
    | .ok none => (none, left.makeRoom)

def feed (r : FrameReader) (chunk : Bytes) : FrameReader :=
  { r with buffer := r.buffer ++ chunk }

/-- The result of a stream that ends here; one that ends before any byte breaks off in the length. -/
def finish (r : FrameReader) : Except FrameError Bytes :=
  match (r.codec.decodeEnd r.buffer.toList).result with
  | .error e => .error e
  | .ok (some payload) => .ok payload
  | .ok none => .error (.truncatedLength 0)

/-- What a read decides once the reader has asked for it. -/
def accept (r : FrameReader) : SourceRead → Except FrameError Bytes ⊕ FrameReader
  | .failure cause => .inl (.error (.io cause))
  | .bytes [] => .inl r.finish
  | .bytes chunk => .inr (r.feed chunk)

/-- Reads a frame, and gives the reads that were not taken. After the last read the stream is at
its end. -/
def run (r : FrameReader) (source : List SourceRead) : Except FrameError Bytes × List SourceRead :=
  match r.poll with
  | (some result, _) => (result, source)
  | (none, r) =>
    match source with
    | [] => (r.finish, [])
    | read :: rest =>
      match r.accept read with
      | .inl result => (result, rest)
      | .inr r => run r rest

end FrameReader

namespace Frame

def readWith (codec : FrameCodec) (source : List SourceRead) :
    Except FrameError Bytes × List SourceRead :=
  (FrameReader.new codec).run source

def read (source : List SourceRead) : Except FrameError Bytes × List SourceRead :=
  readWith .new source

/-- Several frames one after another, each read with a new buffer. -/
def readMany (codec : FrameCodec) : Nat → List SourceRead → List (Except FrameError Bytes)
  | 0, _ => []
  | times + 1, source =>
    let (result, rest) := readWith codec source
    result :: readMany codec times rest

end Frame

end EvidenceExchange
