import EvidenceExchange.Error

namespace EvidenceExchange

inductive CallResult (α : Type) where
  | returned (result : Except ExchangeError α)
  /-- The call computed an instant that is not representable. -/
  | overflowed
  /-- The call was dropped before it returned. -/
  | aborted

end EvidenceExchange
