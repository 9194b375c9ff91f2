import EvidenceExchange.Proofs.Interleaving

namespace EvidenceExchange

def CallResult.Fails {α : Type} (result : CallResult α) : Prop := ∀ a, result ≠ .returned (.ok a)

@[simp]
theorem CallResult.fails_error {α : Type} (e : ExchangeError) :
    (CallResult.returned (.error e) : CallResult α).Fails := by
  simp [Fails]

@[simp]
theorem CallResult.fails_aborted {α : Type} : (CallResult.aborted : CallResult α).Fails := by
  simp [Fails]

@[simp]
theorem CallResult.fails_overflowed {α : Type} : (CallResult.overflowed : CallResult α).Fails := by
  simp [Fails]

def LogEvent.delivery? : LogEvent → Option Delivery
  | evidenceReceived _ d | evidenceSent _ d => some d
  | _ => none

/-- What a log says has gone over. -/
def deliveries (log : List LogEvent) : List Delivery := log.filterMap LogEvent.delivery?

@[simp]
theorem deliveries_append (log log' : List LogEvent) :
    deliveries (log ++ log') = deliveries log ++ deliveries log' :=
  List.filterMap_append

theorem deliveries_lock (path : String) (s : Sockets) :
    deliveries (Transport.lock path s).log = [] := by
  unfold Transport.lock
  split
  next => rfl
  next => split <;> rfl

theorem deliveries_afterRemoval (path : String) (result : Except IoError Unit) :
    deliveries (Transport.afterRemoval path result).2 = [] := by
  cases result <;> rfl

theorem deliveries_listen (path : String) (l : SocketLock) (s : Sockets) :
    deliveries (Transport.listen path l s).log = [] := by
  unfold Transport.listen
  split <;> rfl

theorem deliveries_closeListener (l : SocketListener) (s : Sockets) :
    deliveries (Transport.closeListener l s).log = [] := by
  unfold Transport.closeListener
  cases s.fs.unlink l.path with
  | ok fs => rfl
  | error e =>
    dsimp only
    split <;> rfl

end EvidenceExchange
