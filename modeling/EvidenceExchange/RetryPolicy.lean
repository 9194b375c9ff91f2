import EvidenceExchange.Duration

namespace EvidenceExchange

structure RetryPolicy where
  maxRetries : UInt32
  interval : Duration
  deriving DecidableEq

namespace RetryPolicy

/-- A single attempt. -/
def once : RetryPolicy := ⟨0, .ofSecs 1⟩

/-- One attempt more than there are retries, and never more than a counter of 32 bits holds. -/
def maxAttempts (p : RetryPolicy) : Nat :=
  min (p.maxRetries.toNat + 1) (UInt32.size - 1)

/-- The interval times the number of retries, up to the longest duration. -/
def totalWait (p : RetryPolicy) : Duration :=
  p.interval.saturatingMul p.maxRetries.toNat

/-- The interval in whole milliseconds, as a word of 64 bits. -/
def delayMillis (p : RetryPolicy) : UInt64 :=
  .ofNat p.interval.wholeMillis

end RetryPolicy

end EvidenceExchange
