import EvidenceExchange.Bytes

namespace EvidenceExchange.Evidence

structure Tag where
  code : UInt16
  deriving DecidableEq

namespace Tag

def sevSnpReport : Tag := ⟨0x0001⟩
def sevSnpVcek : Tag := ⟨0x0002⟩
def tdxReport : Tag := ⟨0x0010⟩
def tdxCollateral : Tag := ⟨0x0011⟩
def tpmQuote : Tag := ⟨0x0020⟩
def tpmtPublic : Tag := ⟨0x0021⟩
def tpmCertify : Tag := ⟨0x0022⟩
def akCertificate : Tag := ⟨0x0023⟩
def nvidiaGpuReport : Tag := ⟨0x0030⟩

/-- The tags that have a name. -/
def known : List (Tag × String) := [
  (sevSnpReport, "sev-snp-report"),
  (sevSnpVcek, "sev-snp-vcek"),
  (tdxReport, "tdx-report"),
  (tdxCollateral, "tdx-collateral"),
  (tpmQuote, "tpm-quote"),
  (tpmtPublic, "tpmt-public"),
  (tpmCertify, "tpm-certify"),
  (akCertificate, "ak-certificate"),
  (nvidiaGpuReport, "nvidia-gpu-report")]

def name? (t : Tag) : Option String :=
  known.lookup t

/-- The name of the tag, or its code as four hexadecimal digits. -/
def text (t : Tag) : String :=
  match t.name? with
  | some name => name
  | none =>
    let n := t.code.toNat
    "0x" ++ String.ofList
      [Hex.upperDigit (n / 4096), Hex.upperDigit (n / 256 % 16), Hex.upperDigit (n / 16 % 16),
       Hex.upperDigit (n % 16)]

end Tag

structure Piece where
  tag : Tag
  data : Bytes
  signature : Bytes
  deriving DecidableEq

/-- Pieces in the order in which they are sent. -/
abbrev Bundle := List Piece

/-- The tags of a bundle in the order of their codes. -/
def Bundle.sortedTags (b : Bundle) : List Tag :=
  (b.map Piece.tag).mergeSort fun s t => s.code ≤ t.code

end EvidenceExchange.Evidence
