import EvidenceExchange.Error
import EvidenceExchange.RetryPolicy

namespace EvidenceExchange

def defaultSocket : String := "/tmp/router.sock"

def defaultTimeout : Duration := .ofSecs 60

def checkSocket (socket : String) : Except ExchangeError Unit :=
  if socket.isEmpty then .error (.invalidConfig .missingSocket) else .ok ()

structure SenderConfig where
  socket : String := defaultSocket
  maxRetries : UInt32 := RetryPolicy.once.maxRetries
  retryInterval : Duration := RetryPolicy.once.interval
  deriving DecidableEq

namespace SenderConfig

def default : SenderConfig := {}

def withSocket (socket : String) : SenderConfig := { default with socket := socket }

def retryPolicy (c : SenderConfig) : RetryPolicy := ⟨c.maxRetries, c.retryInterval⟩

def validate (c : SenderConfig) : Except ExchangeError Unit := checkSocket c.socket

inductive Setting where
  | socket (socket : String)
  | maxRetries (count : UInt32)
  | retryInterval (interval : Duration)
  | retryPolicy (policy : RetryPolicy)

def set (c : SenderConfig) : Setting → SenderConfig
  | .socket socket => { c with socket := socket }
  | .maxRetries count => { c with maxRetries := count }
  | .retryInterval interval => { c with retryInterval := interval }
  | .retryPolicy policy => { c with maxRetries := policy.maxRetries, retryInterval := policy.interval }

/-- The default configuration with the settings made in order, if it is valid. -/
def build (settings : List Setting) : Except ExchangeError SenderConfig := do
  let config := settings.foldl set default
  config.validate
  return config

end SenderConfig

structure ReceiverConfig where
  socket : String := defaultSocket
  timeout : Duration := defaultTimeout
  reclaimStaleSocket : Bool := false
  deriving DecidableEq

namespace ReceiverConfig

def default : ReceiverConfig := {}

def withSocket (socket : String) : ReceiverConfig := { default with socket := socket }

/-- The socket is checked before the timeout. -/
def validate (c : ReceiverConfig) : Except ExchangeError Unit := do
  checkSocket c.socket
  if c.timeout.isZero then throw (.invalidConfig .zeroTimeout)

inductive Setting where
  | socket (socket : String)
  | timeout (timeout : Duration)
  | reclaimStaleSocket (reclaim : Bool)

def set (c : ReceiverConfig) : Setting → ReceiverConfig
  | .socket socket => { c with socket := socket }
  | .timeout timeout => { c with timeout := timeout }
  | .reclaimStaleSocket reclaim => { c with reclaimStaleSocket := reclaim }

def build (settings : List Setting) : Except ExchangeError ReceiverConfig := do
  let config := settings.foldl set default
  config.validate
  return config

end ReceiverConfig

end EvidenceExchange
