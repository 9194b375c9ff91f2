import EvidenceExchange.Evidence.Basic

namespace EvidenceExchange.Evidence

/-- A part of the binary form, for errors to name. -/
inductive Field where
  | version
  | pieceCount
  | tag
  | data
  | signature
  | named (name : String)
  deriving DecidableEq

def Field.name : Field → String
  | version => "encoding version"
  | pieceCount => "piece count"
  | tag => "evidence type"
  | data => "evidence data"
  | signature => "evidence signature"
  | named name => name

inductive CodecError where
  | invalidMagic (expected actual : Bytes)
  | unsupportedVersion (version : UInt8)
  | truncated (missing : Field)
  | pieceCountOverflow (count remaining : Nat)
  | fieldTooLarge (field : Field) (size : Nat)
  | trailingBytes (count : Nat)
  | other (text : String)
  deriving DecidableEq

namespace CodecError

/-- Bytes as two upper-case digits each, in brackets. -/
def byteList (bytes : Bytes) : String :=
  let digits (b : UInt8) := String.ofList [Hex.upperDigit (b.toNat / 16), Hex.upperDigit (b.toNat % 16)]
  "[" ++ ", ".intercalate (bytes.map digits) ++ "]"

def message : CodecError → String
  | invalidMagic expected actual =>
    "invalid magic bytes: expected " ++ byteList expected ++ ", got " ++ byteList actual
  | unsupportedVersion version =>
    "unsupported evidence encoding version: " ++ toString version.toNat
  | truncated missing => "truncated evidence encoding: missing " ++ missing.name
  | pieceCountOverflow count remaining =>
    "evidence piece count " ++ toString count ++ " cannot fit in " ++ toString remaining ++
      " remaining bytes"
  | fieldTooLarge field size => field.name ++ " too large: " ++ toString size ++ " bytes"
  | trailingBytes count => toString count ++ " trailing bytes after evidence list"
  | other text => text

end CodecError

/-- The ASCII letters SEVL. -/
def magic : Bytes := [0x53, 0x45, 0x56, 0x4C]

def encodingVersion : UInt8 := 1

/-- The bytes of a piece whose data and signature are empty. -/
def minPieceSize : Nat := 10

/-- A number as four bytes, unless it needs more. -/
def encodeSize (field : Field) (size : Nat) : Except CodecError Bytes :=
  if size < UInt32.size then .ok (BigEndian.encode 4 size) else .error (.fieldTooLarge field size)

def Piece.encode (p : Piece) : Except CodecError Bytes := do
  let dataSize ← encodeSize .data p.data.length
  let signatureSize ← encodeSize .signature p.signature.length
  return BigEndian.encode 2 p.tag.code.toNat ++ dataSize ++ p.data ++ signatureSize ++ p.signature

def Bundle.encode (b : Bundle) : Except CodecError Bytes := do
  let count ← encodeSize .pieceCount b.length
  let pieces ← b.mapM Piece.encode
  return magic ++ encodingVersion :: count ++ pieces.flatten

/-- The number in the first `width` bytes, and what follows it. -/
def takeNumber (width : Nat) (field : Field) (bytes : Bytes) : Except CodecError (Nat × Bytes) :=
  let digits := bytes.take width
  if digits.length < width then .error (.truncated field)
  else .ok (BigEndian.decode digits, bytes.drop width)

/-- The bytes after a length, as many as it says, and what follows them. -/
def takeField (field : Field) (bytes : Bytes) : Except CodecError (Bytes × Bytes) := do
  let (size, rest) ← takeNumber 4 field bytes
  let content := rest.take size
  if content.length < size then .error (.truncated field) else .ok (content, rest.drop size)

def Piece.decode (bytes : Bytes) : Except CodecError (Piece × Bytes) := do
  let (code, rest) ← takeNumber 2 .tag bytes
  let (data, rest) ← takeField .data rest
  let (signature, rest) ← takeField .signature rest
  return (⟨⟨UInt16.ofNat code⟩, data, signature⟩, rest)

/-- The given number of pieces after those read before, latest first, and what follows them. -/
def decodePieces : Nat → List Piece → Bytes → Except CodecError (Bundle × Bytes)
  | 0, earlier, bytes => .ok (earlier.reverse, bytes)
  | count + 1, earlier, bytes =>
    match Piece.decode bytes with
    | .error e => .error e
    | .ok (p, rest) => decodePieces count (p :: earlier) rest

/-- The bytes after the magic and the version. -/
def takeHeader (bytes : Bytes) : Except CodecError Bytes :=
  if bytes.take 4 ≠ magic then .error (.invalidMagic magic (bytes.take 4))
  else
    match bytes.drop 4 with
    | [] => .error (.truncated .version)
    | version :: rest =>
      if version ≠ encodingVersion then .error (.unsupportedVersion version) else .ok rest

/-- A count of pieces that the bytes left cannot hold is refused before any piece is read. -/
def Bundle.decode (bytes : Bytes) : Except CodecError Bundle := do
  let rest ← takeHeader bytes
  let (count, rest) ← takeNumber 4 .pieceCount rest
  if count > rest.length / minPieceSize then .error (.pieceCountOverflow count rest.length)
  else
    let (bundle, rest) ← decodePieces count [] rest
    if rest.isEmpty then .ok bundle else .error (.trailingBytes rest.length)

/-- How a sender and a receiver turn a bundle into a payload and back. -/
structure Codec where
  encode : Bundle → Except CodecError Bytes
  decode : Bytes → Except CodecError Bundle

namespace Codec

def binary : Codec := ⟨Bundle.encode, Bundle.decode⟩

/-- A codec without any evidence to give. -/
def failing (text : String) : Codec :=
  ⟨fun _ => .error (.other text), fun _ => .error (.other text)⟩

end Codec

end EvidenceExchange.Evidence
