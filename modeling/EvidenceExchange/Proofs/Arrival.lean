import EvidenceExchange.Proofs.Frame.Space
import EvidenceExchange.Proofs.Sockets

namespace EvidenceExchange

/-- What decides the frame of which some bytes were taken before and the next ones are in a pipe. -/
def Pipe.frame? (p : Pipe) (taken : Bytes) : Option (Except FrameError Bytes) :=
  match Frame.verdict? Frame.maxPayload (taken ++ p.unread) with
  | some result => some result
  | none =>
    if p.reset then some (.error (.io .connectionReset))
    else if p.ended then some (Frame.verdict Frame.maxPayload (taken ++ p.unread))
    else none

/-- What decides the frame that comes over a stream, after some bytes of it were taken. -/
def Sockets.frame? (s : Sockets) (e : Endpoint) (taken : Bytes) : Option (Except FrameError Bytes) :=
  match s.connections[e.connection]? with
  | none => some (Frame.verdict Frame.maxPayload taken)
  | some c => (c.incoming e.side).frame? taken

namespace Pipe

variable {p : Pipe} {taken : Bytes}

theorem frame?_of_verdict? {result : Except FrameError Bytes}
    (h : Frame.verdict? Frame.maxPayload taken = some result) : p.frame? taken = some result := by
  simp only [frame?, Frame.verdict?_append h]

theorem frame?_take {grain : Nat} {bytes : Bytes} (h : p.unread.take grain = bytes) :
    (p.take bytes.length).frame? (taken ++ bytes) = p.frame? taken := by
  have split : p.unread = bytes ++ (p.take bytes.length).unread := by
    have size : bytes.length ≤ p.unread.length := by
      rw [← h]
      exact List.length_take_le' grain p.unread
    have cut : p.unread.take bytes.length = bytes := by
      rw [← h, List.length_take, List.take_eq_take_min (i := grain)]
    have rest : (p.take bytes.length).unread = p.unread.drop bytes.length := by
      simp only [unread, take, List.drop_drop]
    rw [rest]
    conv_lhs => rw [← List.take_append_drop bytes.length p.unread, cut]
  simp only [frame?, split, List.append_assoc]
  rfl

end Pipe

namespace Sockets

variable {s s' : Sockets} {e : Endpoint} {taken : Bytes}

theorem frame?_of_verdict? {result : Except FrameError Bytes}
    (h : Frame.verdict? Frame.maxPayload taken = some result) : s.frame? e taken = some result := by
  unfold frame?
  split
  next => rw [Frame.verdict_of_verdict? h]
  next => exact Pipe.frame?_of_verdict? h

theorem frame?_of_connections (h : s'.connections = s.connections) :
    s'.frame? e taken = s.frame? e taken := by
  simp only [frame?, h]

/-- What a read says of a frame that the bytes taken before do not decide. -/
def ReadOutcome.Tells (s : Sockets) (e : Endpoint) (taken : Bytes) (grain : Nat) (s' : Sockets) :
    ReadOutcome → Prop
  | .chunk bytes => bytes.length ≤ grain ∧ s'.frame? e (taken ++ bytes) = s.frame? e taken
  | .atEnd => s.frame? e taken = some (Frame.verdict Frame.maxPayload taken)
  | .failed cause => s.frame? e taken = some (.error (.io cause))
  | .blocked => s.frame? e taken = none

theorem tells_of_read {grain : Nat} (pos : 0 < grain) {outcome : ReadOutcome}
    (undecided : Frame.verdict? Frame.maxPayload taken = none)
    (h : s.read e grain = (outcome, s')) : outcome.Tells s e taken grain s' := by
  unfold read at h
  split at h
  next missing =>
    cases h
    simp only [ReadOutcome.Tells, frame?, missing]
  next c here =>
    dsimp only at h
    split at h
    next byte rest cut =>
      cases h
      have size : (byte :: rest).length ≤ grain := by
        rw [← cut]
        exact List.length_take_le grain _
      refine ⟨size, ?_⟩
      have replaced : (s.modifyConnection e.connection
          (·.setIncoming e.side ((c.incoming e.side).take (rest.length + 1)))).connections[e.connection]? =
          some (c.setIncoming e.side ((c.incoming e.side).take (rest.length + 1))) := by
        simp [modifyConnection, here]
      have incoming : (c.setIncoming e.side ((c.incoming e.side).take (rest.length + 1))).incoming
          e.side = (c.incoming e.side).take (rest.length + 1) := by
        cases e.side <;> rfl
      simp only [frame?, replaced, here, incoming]
      exact Pipe.frame?_take cut
    next cut =>
      have empty : (c.incoming e.side).unread = [] := by
        obtain ⟨n, rfl⟩ := Nat.exists_eq_add_of_lt pos
        rw [List.take_eq_nil_iff] at cut
        simpa using cut
      have nothing : (c.incoming e.side).frame? taken =
          if (c.incoming e.side).reset then some (.error (.io .connectionReset))
          else if (c.incoming e.side).ended then some (Frame.verdict Frame.maxPayload taken)
          else none := by
        simp only [Pipe.frame?, empty, List.append_nil, undecided]
      split at h
      next more =>
        have count : (c.incoming e.side).unread.length = (c.incoming e.side).unreadCount :=
          List.length_drop
        rw [empty] at count
        simp [← count] at more
      next =>
        split at h
        next reset =>
          cases h
          simp only [ReadOutcome.Tells, frame?, here, nothing, reset, if_true]
        next reset =>
          split at h
          next ended =>
            cases h
            simp only [ReadOutcome.Tells, frame?, here, nothing, reset, ended, if_true]
            rfl
          next ended =>
            cases h
            simp only [ReadOutcome.Tells, frame?, here, nothing, reset, ended]
            rfl

/-- The connection that is the next at a listener is accepted at the server's end of it. -/
theorem side_of_accept {entry : Nat} {stream : Endpoint}
    (h : s.accept entry = some (stream, s')) :
    stream.side = .server ∧ s'.connections = s.connections := by
  unfold accept at h
  split at h
  next =>
    cases h
    exact ⟨rfl, rfl⟩
  next => cases h

/-- Whoever goes away on the server's side takes nothing from what comes to that side. -/
theorem frame?_close_server (s : Sockets) (id : Nat) (abrupt : Bool) (c : Nat) (taken : Bytes) :
    (s.modifyConnection id (·.close .server abrupt)).frame? ⟨c, .server⟩ taken =
      s.frame? ⟨c, .server⟩ taken := by
  simp only [frame?, modifyConnection, List.getElem?_modify]
  cases s.connections[c]? with
  | none => simp
  | some k =>
    by_cases same : id = c
    · simp only [same, if_true]
      rfl
    · simp only [same, if_false]
      rfl

theorem frame?_unlisten (s : Sockets) (entry c : Nat) (taken : Bytes) :
    (s.unlisten entry).frame? ⟨c, .server⟩ taken = s.frame? ⟨c, .server⟩ taken :=
  foldl_modifyConnection (frame? · ⟨c, .server⟩ taken) _
    (fun s id => s.frame?_close_server id true c taken) _ _

end Sockets

/-- Giving a path up leaves alone what comes over an accepted stream. -/
theorem Transport.frame?_closeListener (l : SocketListener) (s : Sockets) (c : Nat) (taken : Bytes) :
    (closeListener l s).sockets.frame? ⟨c, .server⟩ taken = s.frame? ⟨c, .server⟩ taken := by
  unfold closeListener
  exact Sockets.frame?_unlisten _ l.entry c taken

end EvidenceExchange
