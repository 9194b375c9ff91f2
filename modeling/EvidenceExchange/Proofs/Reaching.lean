import EvidenceExchange.Proofs.Upkeep
import EvidenceExchange.Proofs.Wires

namespace EvidenceExchange

open FileSystem (Spot)

namespace Sockets

variable {path : String} {p : Spot} {file : Nat} {li : SocketListener} {s : Sockets}

/-- A path leads to the listener that it is kept for. -/
theorem Kept.target? (kept : s.Kept path p file (some (.listener li))) {l : Listening}
    (here : s.listener? li.entry = some l) : s.target? path = .ok l := by
  cases kept with
  | bound site _ alone =>
    have occupied : s.fs.occupant? p = some ⟨li.entry, p.directory, p.name, .socket⟩ := by
      rw [← FileSystem.head?_standing, alone]
      rfl
    have leads := FileSystem.resolve_of_spot? site.spot site.plain occupied (by simp)
    have named : path.isEmpty = false := by simpa using site.path_ne_empty
    simp only [Sockets.target?, site.address, named, leads, here]
    rfl

theorem connect_of_nobody (nobody : s.listening = []) (path : String) :
    ∃ cause, s.connect path = (.error cause, s) := by
  cases reached : s.target? path with
  | ok l =>
    have listens := mem_of_target? reached
    rw [nobody] at listens
    cases listens
  | error cause => exact ⟨cause, by simp only [connect, reached]⟩

/-- Who listens and what connections there are, where nothing keeps any from being accepted. -/
structure Hosts (s : Sockets) (listening : List Listening) (connections : List Connection) :
    Prop where
  listening : s.listening = listening
  connections : s.connections = connections
  acceptFault : s.acceptFault = none

namespace Hosts

variable {listening : List Listening} {connections : List Connection} {l : SocketLock}

theorem lock (h : s.Hosts listening connections) (path : String) :
    (Transport.lock path s).sockets.Hosts listening connections := by
  unfold Transport.lock
  split
  next => exact h
  next => split <;> exact ⟨h.listening, h.connections, h.acceptFault⟩

theorem listen (h : s.Hosts listening connections)
    (bound : (Transport.listen path l s).value = .ok li) :
    (Transport.listen path l s).sockets.Hosts (listening ++ [⟨li.entry, []⟩]) connections := by
  cases made : bindEntry s.fs path with
  | error cause =>
    simp only [Transport.listen, Sockets.bind, made] at bound
    cases bound
  | ok b =>
    simp only [Transport.listen, Sockets.bind, made] at bound ⊢
    cases bound
    exact ⟨by rw [h.listening], h.connections, h.acceptFault⟩

/-- The only listener there is, with those that wait to be accepted. -/
theorem listener? {backlog : List Nat} (h : s.Hosts [⟨li.entry, backlog⟩] connections) :
    s.listener? li.entry = some ⟨li.entry, backlog⟩ := by
  simp [Sockets.listener?, h.listening]

theorem setBacklog {backlog : List Nat} (h : s.Hosts [⟨li.entry, backlog⟩] connections)
    (further : List Nat) :
    (s.setBacklog li.entry further).Hosts [⟨li.entry, further⟩] connections :=
  ⟨by simp [Sockets.setBacklog, h.listening], h.connections, h.acceptFault⟩

theorem connect (h : s.Hosts [⟨li.entry, []⟩] [])
    (kept : s.Kept path p file (some (.listener li))) :
    ∃ s', s.connect path = (.ok ⟨0, .client⟩, s') ∧ s'.Hosts [⟨li.entry, [0]⟩] [.new] := by
  have reached := kept.target? h.listener?
  have waits := h.setBacklog [0]
  simp only [Sockets.connect, reached, h.connections, List.length_nil, List.nil_append]
  exact ⟨_, rfl, waits.listening, rfl, waits.acceptFault⟩

theorem accept_none (h : s.Hosts [⟨li.entry, []⟩] connections) : Transport.accept li s = none := by
  simp only [Transport.accept, h.acceptFault, Sockets.accept, h.listener?, Option.map_none]

theorem accept {id : Nat} (h : s.Hosts [⟨li.entry, [id]⟩] connections) :
    ∃ s' log, Transport.accept li s = some ⟨.ok ⟨id, .server⟩, s', log⟩ ∧
      s'.Hosts [⟨li.entry, []⟩] connections := by
  simp only [Transport.accept, h.acceptFault, Sockets.accept, h.listener?, Option.map_some]
  exact ⟨_, _, rfl, h.setBacklog []⟩

theorem closeListener (h : s.Hosts [⟨li.entry, []⟩] connections) :
    (Transport.closeListener li s).sockets.Hosts [] connections := by
  have closed : ∀ fs, (Transport.unlock li.lock
      (({ s with fs := fs } : Sockets).unlisten li.entry)).Hosts [] connections := by
    intro fs
    have here : ({ s with fs := fs } : Sockets).listener? li.entry = some ⟨li.entry, []⟩ := h.listener?
    simp only [unlisten, here, Option.map_some, Option.getD_some, List.foldl_nil]
    exact ⟨by simp [Transport.unlock, h.listening], h.connections, h.acceptFault⟩
  unfold Transport.closeListener
  split
  exact closed _

end Hosts

end Sockets

end EvidenceExchange
