import EvidenceExchange.Evidence.Codec
import Mathlib

namespace EvidenceExchange.Evidence

/-- What comes of reading an input, as long as no read goes beyond it. -/
abbrev Scan := ExceptT CodecError Option

namespace Scan

/-- So many bytes of an input from a place on, if it has them all. -/
def slice? (input : Bytes) (start width : Nat) : Option Bytes :=
  if start + width ≤ input.length then some ((input.drop start).take width) else none

def slice (input : Bytes) (start width : Nat) : Scan Bytes := ExceptT.lift (slice? input start width)

/-- The byte at a place. -/
def byte (input : Bytes) (start : Nat) : Scan UInt8 := ExceptT.lift input[start]?

/-- The next bytes of a field, if there are as many as it takes. -/
def cut (input : Bytes) (width : Nat) (field : Field) (start : Nat) : Scan (Bytes × Nat) :=
  if input.length - start < width then throw (.truncated field)
  else do
    let bytes ← slice input start width
    return (bytes, start + width)

def number (input : Bytes) (width : Nat) (field : Field) (start : Nat) : Scan (Nat × Nat) := do
  let (digits, start) ← cut input width field start
  return (BigEndian.decode digits, start)

def field (input : Bytes) (field : Field) (start : Nat) : Scan (Bytes × Nat) := do
  let (size, start) ← number input 4 field start
  cut input size field start

def piece (input : Bytes) (start : Nat) : Scan (Piece × Nat) := do
  let (code, start) ← number input 2 .tag start
  let (data, start) ← field input .data start
  let (signature, start) ← field input .signature start
  return (⟨⟨UInt16.ofNat code⟩, data, signature⟩, start)

def pieces (input : Bytes) : Nat → List Piece → Nat → Scan (Bundle × Nat)
  | 0, earlier, start => return (earlier.reverse, start)
  | count + 1, earlier, start => do
    let (p, start) ← piece input start
    pieces input count (p :: earlier) start

def header (input : Bytes) : Scan Nat :=
  if input.length < 4 then do
    let actual ← slice input 0 (min input.length 4)
    throw (.invalidMagic magic actual)
  else do
    let actual ← slice input 0 4
    if actual ≠ magic then throw (.invalidMagic magic actual)
    else if input.length - 4 = 0 then throw (.truncated .version)
    else
      let version ← byte input 4
      if version ≠ encodingVersion then throw (.unsupportedVersion version) else return 5

def bundle (input : Bytes) : Scan Bundle := do
  let start ← header input
  let (count, start) ← number input 4 .pieceCount start
  if count > (input.length - start) / minPieceSize then
    throw (.pieceCountOverflow count (input.length - start))
  else
    let (bundle, start) ← pieces input count [] start
    if input.length - start = 0 then return bundle
    else throw (.trailingBytes (input.length - start))

/-- A scan comes to what a decoder gives. -/
inductive Follows {α β : Type} (related : α → β → Prop) : Scan α → Except CodecError β → Prop where
  | failed (e : CodecError) : Follows related (throw e) (.error e)
  | went {a : α} {b : β} (h : related a b) : Follows related (pure a) (.ok b)

/-- A place in an input, and what there is from it on. -/
def At (input : Bytes) (place : Nat) (rest : Bytes) : Prop :=
  place ≤ input.length ∧ rest = input.drop place

/-- The same value, before the same bytes. -/
def Before (input : Bytes) {α : Type} (x : α × Nat) (y : α × Bytes) : Prop :=
  x.1 = y.1 ∧ At input x.2 y.2

theorem Follows.bind {α β γ δ : Type} {r : α → β → Prop} {s : γ → δ → Prop} {scan : Scan α}
    {decoded : Except CodecError β} {f : α → Scan γ} {g : β → Except CodecError δ}
    (h : Follows r scan decoded) (step : ∀ a b, r a b → Follows s (f a) (g b)) :
    Follows s (scan >>= f) (decoded >>= g) := by
  cases h with
  | failed e => exact .failed e
  | went h => exact step _ _ h

theorem Follows.run_eq {α : Type} {scan : Scan α} {decoded : Except CodecError α}
    (h : Follows (· = ·) scan decoded) : scan.run = some decoded := by
  cases h with
  | failed e => rfl
  | went h => rw [h]; rfl

theorem slice_of_le {input : Bytes} {start width : Nat} (h : start + width ≤ input.length) :
    slice input start width = pure ((input.drop start).take width) := by
  rw [slice, slice?, if_pos h]
  rfl

variable {input rest : Bytes} {start : Nat}

theorem At.length (h : At input start rest) : rest.length = input.length - start := by
  rw [h.2, List.length_drop]

theorem byte_of_drop {version : UInt8} (after : input.drop start = version :: rest) :
    byte input start = pure version ∧ At input (start + 1) rest := by
  have first : input[start]? = some version := by
    rw [← Nat.add_zero start, ← List.getElem?_drop, after]
    rfl
  have length := congrArg List.length after
  rw [List.length_drop, List.length_cons] at length
  refine ⟨by rw [byte, first]; rfl, by omega, ?_⟩
  rw [← List.drop_drop, after]
  rfl

theorem cut_follows (h : At input start rest) (width : Nat) (field : Field) :
    Follows (Before input) (cut input width field start)
      (if (rest.take width).length < width then .error (.truncated field)
        else .ok (rest.take width, rest.drop width)) := by
  obtain ⟨le, rfl⟩ := h
  have less : ((input.drop start).take width).length < width ↔ input.length - start < width := by
    rw [List.length_take, List.length_drop]
    omega
  unfold cut
  by_cases short : input.length - start < width
  · rw [if_pos short, if_pos (less.mpr short)]
    exact .failed _
  · rw [if_neg short, if_neg (less.not.mpr short), slice_of_le (by omega)]
    refine .went ⟨rfl, by omega, ?_⟩
    rw [List.drop_drop]

theorem number_follows (h : At input start rest) (width : Nat) (field : Field) :
    Follows (Before input) (number input width field start) (takeNumber width field rest) := by
  have inTwo : takeNumber width field rest =
      (if (rest.take width).length < width then .error (.truncated field)
        else .ok (rest.take width, rest.drop width)) >>=
        fun cut => .ok (BigEndian.decode cut.1, cut.2) := by
    simp only [takeNumber]
    split <;> rfl
  rw [inTwo]
  refine (cut_follows h width field).bind ?_
  rintro ⟨digits, place⟩ ⟨_, left⟩ ⟨rfl, next⟩
  exact .went ⟨rfl, next⟩

theorem field_follows (h : At input start rest) (name : Field) :
    Follows (Before input) (field input name start) (takeField name rest) := by
  refine (number_follows h 4 name).bind ?_
  rintro ⟨size, place⟩ ⟨_, left⟩ ⟨rfl, next⟩
  exact cut_follows next size name

theorem piece_follows (h : At input start rest) :
    Follows (Before input) (piece input start) (Piece.decode rest) := by
  refine (number_follows h 2 .tag).bind ?_
  rintro ⟨code, afterTag⟩ ⟨_, left⟩ ⟨rfl, h⟩
  refine (field_follows h .data).bind ?_
  rintro ⟨data, afterData⟩ ⟨_, left⟩ ⟨rfl, h⟩
  refine (field_follows h .signature).bind ?_
  rintro ⟨signature, afterSignature⟩ ⟨_, left⟩ ⟨rfl, h⟩
  exact .went ⟨rfl, h⟩

theorem pieces_follows (h : At input start rest) (count : Nat) (earlier : List Piece) :
    Follows (Before input) (pieces input count earlier start) (decodePieces count earlier rest) := by
  induction count generalizing start rest earlier with
  | zero => exact .went ⟨rfl, h⟩
  | succ count ih =>
    have step : decodePieces (count + 1) earlier rest =
        Piece.decode rest >>= fun (p, rest) => decodePieces count (p :: earlier) rest := by
      rw [decodePieces]
      cases Piece.decode rest <;> rfl
    rw [pieces, step]
    refine (piece_follows h).bind ?_
    rintro ⟨p, place⟩ ⟨_, left⟩ ⟨rfl, h⟩
    exact ih h (p :: earlier)

theorem header_follows (input : Bytes) : Follows (At input) (header input) (takeHeader input) := by
  unfold header takeHeader
  by_cases short : input.length < 4
  · have cut : input.take 4 = input := List.take_of_length_le short.le
    have differs : input ≠ magic := by
      rintro rfl
      exact absurd short (by decide)
    have all : slice input 0 (min input.length 4) = pure input := by
      rw [slice_of_le (by omega), List.drop_zero, Nat.min_eq_left short.le, List.take_length]
    simp only [if_pos short, all, cut, if_pos differs]
    exact .failed _
  · simp only [if_neg short, slice_of_le (show 0 + 4 ≤ input.length by omega), List.drop_zero, pure_bind]
    by_cases differs : input.take 4 ≠ magic
    · simp only [if_pos differs]
      exact .failed _
    · simp only [if_neg differs]
      cases after : input.drop 4 with
      | nil =>
        have none : input.length - 4 = 0 := by rw [← List.length_drop, after, List.length_nil]
        simp only [if_pos none]
        exact .failed _
      | cons version rest =>
        have more : input.length - 4 ≠ 0 := by
          rw [← List.length_drop, after, List.length_cons]
          exact Nat.succ_ne_zero _
        obtain ⟨read, next⟩ := byte_of_drop after
        simp only [if_neg more, read, pure_bind]
        by_cases other : version ≠ encodingVersion
        · simp only [if_pos other]
          exact .failed _
        · simp only [if_neg other]
          exact .went next

/-- No input makes a read go beyond it, and reading by position gives what decoding gives. -/
theorem run_bundle (input : Bytes) : (bundle input).run = some (Bundle.decode input) := by
  refine Follows.run_eq ((header_follows input).bind ?_)
  intro start rest h
  refine (number_follows h 4 .pieceCount).bind ?_
  rintro ⟨count, place⟩ ⟨_, left⟩ ⟨rfl, h⟩
  simp only [h.length]
  by_cases exceeds : count > (input.length - place) / minPieceSize
  · simp only [if_pos exceeds]
    exact .failed _
  simp only [if_neg exceeds]
  refine (pieces_follows h count []).bind ?_
  rintro ⟨b, last⟩ ⟨_, unread⟩ ⟨rfl, h⟩
  have length := h.length
  by_cases all : input.length - last = 0
  · have empty : unread = [] := List.length_eq_zero_iff.mp (length.trans all)
    simp only [if_pos all, empty]
    exact .went rfl
  · have more : ¬unread.isEmpty := by
      rw [List.isEmpty_iff]
      rintro rfl
      exact all length.symm
    simp only [if_neg all, if_neg more, length]
    exact .failed _

end Scan

end EvidenceExchange.Evidence
