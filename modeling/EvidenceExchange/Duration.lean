namespace EvidenceExchange

/-- A whole number of nanoseconds, below 2 ^ 64 seconds. -/
structure Duration where
  nanos : Nat
  nanos_lt : nanos < UInt64.size * 1000000000
  deriving DecidableEq

namespace Duration

/-- The given number of nanoseconds, if it is a duration. -/
def ofNanos? (n : Nat) : Option Duration :=
  if h : n < UInt64.size * 1000000000 then some ⟨n, h⟩ else none

/-- Whole seconds and nanoseconds, a second or more of nanoseconds carried into the seconds. -/
def ofParts? (secs nanos : Nat) : Option Duration :=
  ofNanos? (secs * 1000000000 + nanos)

def longest : Duration := ⟨UInt64.size * 1000000000 - 1, by decide⟩

def zero : Duration := ⟨0, by decide⟩

/-- The given number of nanoseconds, or the longest duration if there is none so long. -/
def saturating (n : Nat) : Duration :=
  (ofNanos? n).getD longest

def ofSecs (n : UInt64) : Duration :=
  ⟨n.toNat * 1000000000, Nat.mul_lt_mul_of_pos_right n.toNat_lt (by decide)⟩

def ofMillis (n : UInt64) : Duration :=
  ⟨n.toNat * 1000000, by have := n.toNat_lt; simp only [UInt64.size]; omega⟩

def secs (d : Duration) : Nat := d.nanos / 1000000000

def subsecNanos (d : Duration) : Nat := d.nanos % 1000000000

def isZero (d : Duration) : Bool := d.nanos == 0

def wholeMillis (d : Duration) : Nat := d.nanos / 1000000

def saturatingMul (d : Duration) (k : Nat) : Duration :=
  saturating (d.nanos * k)

/-- A decimal fraction of `width` places without the zeros at its end, nothing at all for zero. -/
def fraction (n width : Nat) : String :=
  let digits := (Nat.toDigits 10 n).reverse
  let padded := digits ++ List.replicate (width - digits.length) '0'
  match padded.dropWhile (· == '0') with
  | [] => ""
  | kept => "." ++ String.ofList kept.reverse

/-- The largest unit of which there is a whole one, with as many places as the value needs. -/
def text (d : Duration) : String :=
  let n := d.subsecNanos
  if d.secs > 0 then toString d.secs ++ fraction n 9 ++ "s"
  else if n ≥ 1000000 then toString (n / 1000000) ++ fraction (n % 1000000) 6 ++ "ms"
  else if n ≥ 1000 then toString (n / 1000) ++ fraction (n % 1000) 3 ++ "µs"
  else toString n ++ "ns"

end Duration

/-- A point of time, in nanoseconds after the start of the clock. -/
structure Instant where
  nanos : Nat
  deriving DecidableEq

namespace Instant

/-- Instants are representable below this many seconds. -/
def limitSecs : Nat := 9223372036854775807

/-- No wait is longer than this: thirty years. -/
def longestWait : Nat := 86400 * 365 * 30 * 1000000000

def ofMillis (ms : Nat) : Instant := ⟨ms * 1000000⟩

/-- The instant a duration later, if it is representable. -/
def add? (t : Instant) (d : Duration) : Option Instant :=
  if t.nanos + d.nanos < limitSecs * 1000000000 then some ⟨t.nanos + d.nanos⟩ else none

/-- The end of a wait of the given length, or of the longest one. -/
def afterWait (t : Instant) (d : Duration) : Instant :=
  ⟨t.nanos + Nat.min d.nanos longestWait⟩

def min (s t : Instant) : Instant :=
  if s.nanos ≤ t.nanos then s else t

/-- The first millisecond of the clock at or after the instant. -/
def tick (t : Instant) : Nat := (t.nanos + 999999) / 1000000

def wholeMillis (t : Instant) : Nat := t.nanos / 1000000

theorem tick_le_iff {t : Instant} {now : Nat} : t.tick ≤ now ↔ t.nanos ≤ (ofMillis now).nanos := by
  simp only [tick, ofMillis]
  omega

@[simp] theorem tick_ofMillis (ms : Nat) : (ofMillis ms).tick = ms := by
  simp only [tick, ofMillis]
  omega

end Instant

end EvidenceExchange
