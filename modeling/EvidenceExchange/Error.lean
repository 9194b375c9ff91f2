import EvidenceExchange.Cancellation
import EvidenceExchange.Duration
import EvidenceExchange.Evidence.Codec
import EvidenceExchange.Frame.Basic

namespace EvidenceExchange

inductive ConfigError where
  | missingSocket
  | zeroTimeout
  | other (text : String)
  deriving DecidableEq

def ConfigError.message : ConfigError → String
  | missingSocket => "missing socket path"
  | zeroTimeout => "timeout must be > 0"
  | other text => text

inductive ExchangeError where
  | cancelled
  | deadlineExceeded
  | timeout (after : Duration)
  | connectFailed (path : String) (attempts : Nat) (cause : IoError)
  | bindFailed (path : String) (cause : IoError)
  | frame (cause : FrameError)
  | encode (cause : Evidence.CodecError)
  | decode (cause : Evidence.CodecError)
  | invalidConfig (cause : ConfigError)
  | io (cause : IoError)
  deriving DecidableEq

namespace ExchangeError

def ofCancellation : Cancellation → ExchangeError
  | .cancelled => cancelled
  | .deadlineExceeded => deadlineExceeded

def ofFrame : FrameError → ExchangeError
  | .io cause => io cause
  | cause => frame cause

def message : ExchangeError → String
  | cancelled => "operation cancelled"
  | deadlineExceeded => "context deadline exceeded"
  | timeout after => "timed out after " ++ after.text ++ " waiting for evidence"
  | connectFailed path attempts cause =>
    "failed to connect to " ++ path ++ " after " ++ toString attempts ++ " attempts: " ++ cause.message
  | bindFailed path cause => "failed to listen on " ++ path ++ ": " ++ cause.message
  | frame cause => cause.message
  | encode cause => "failed to encode evidence: " ++ cause.message
  | decode cause => "failed to decode evidence: " ++ cause.message
  | invalidConfig cause => "invalid configuration: " ++ cause.message
  | io cause => "I/O error: " ++ cause.message

/-- The messages of the errors that led to this one, the nearest first. -/
def sources : ExchangeError → List String
  | connectFailed _ _ cause | bindFailed _ cause | io cause => [cause.message]
  | frame cause => cause.source?.toList.map IoError.message
  | encode cause | decode cause => [cause.message]
  | _ => []

/-- Whether the context of the call ended it. -/
def isCancellation : ExchangeError → Bool
  | cancelled | deadlineExceeded => true
  | _ => false

def isMalformedFrame : ExchangeError → Bool
  | frame cause => cause.isMalformed
  | _ => false

/-- The I/O error inside, if there is one. -/
def ioCause? : ExchangeError → Option IoError
  | connectFailed _ _ cause | bindFailed _ cause | io cause => some cause
  | _ => none

end ExchangeError

end EvidenceExchange
