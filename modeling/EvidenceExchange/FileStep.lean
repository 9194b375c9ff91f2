import EvidenceExchange.Sockets

namespace EvidenceExchange

inductive FileStep where
  | makeFile (path : String)
  | makeDirectories (path : String)
  | link (path target : String)
  /-- Leaves a socket that nobody listens on. -/
  | staleSocket (path : String)
  | remove (path : String)
  | rename (path target : String)

/-- What an attempt says and leaves, where a failure changes nothing. -/
def FileSystem.attempt {ε : Type} (fs : FileSystem) : Except ε FileSystem → Bool × FileSystem
  | .ok fs => (true, fs)
  | .error _ => (false, fs)

/-- Whether a step succeeds, and the files after it. -/
def FileStep.apply (fs : FileSystem) : FileStep → Bool × FileSystem
  | makeFile path => fs.attempt ((fs.openFile path).map Prod.snd)
  | makeDirectories path => fs.makeDirectories path
  | link path target => fs.attempt (fs.link path target)
  | staleSocket path => fs.attempt ((Sockets.bindEntry fs path).map Prod.snd)
  | remove path => fs.removeAll path
  | rename path target =>
    match fs.rename? path target with
    | some fs => (true, fs)
    | none => (false, fs)

/-- Applies a step, and says whether it succeeded. -/
def Sockets.applyFileStep (s : Sockets) (step : FileStep) : Bool × Sockets :=
  let (succeeded, fs) := step.apply s.fs
  (succeeded, { s with fs := fs })

end EvidenceExchange
