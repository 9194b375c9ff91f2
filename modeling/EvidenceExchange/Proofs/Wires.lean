import EvidenceExchange.Proofs.Checks
import EvidenceExchange.Proofs.Sockets

namespace EvidenceExchange

/-- The bytes sent to the server of a connection, and how many of them it has read. -/
structure Wire where
  carried : Bytes
  taken : Nat

namespace Wire

def new : Wire := ⟨[], 0⟩

def send (more : Bytes) (w : Wire) : Wire := { w with carried := w.carried ++ more }

def take (count : Nat) (w : Wire) : Wire := { w with taken := w.taken + count }

/-- What the server has read. -/
def seen (w : Wire) : Bytes := w.carried.take w.taken

theorem send_nil : send [] = id := by
  funext w
  simp [send]

theorem seen_prefix (w : Wire) : w.seen <+: w.carried := List.take_prefix _ _

theorem seen_take {w : Wire} {bytes : Bytes} (h : bytes <+: w.carried.drop w.taken) :
    (w.take bytes.length).seen = w.seen ++ bytes := by
  obtain ⟨rest, hrest⟩ := h
  simp only [seen, take, List.take_add, ← hrest, List.take_left]

/-- What has been read does not change when more is sent. -/
theorem seen_of_grows {w w' : Wire} (taken : w'.taken = w.taken)
    (grows : w.carried <+: w'.carried) (le : w.taken ≤ w.carried.length) : w'.seen = w.seen := by
  obtain ⟨rest, hrest⟩ := grows
  rw [seen, seen, ← hrest, taken, List.take_append_of_le_length le]

end Wire

def Connection.wire (c : Connection) : Wire := ⟨c.toServer.carried, c.toServer.taken⟩

namespace Sockets

def wires (s : Sockets) : List Wire := s.connections.map Connection.wire

/-- The wire of a connection, or one on which nothing goes. -/
def wire (s : Sockets) (c : Nat) : Wire := (s.wires[c]?).getD .new

variable {s s' : Sockets}

@[simp]
theorem length_wires (s : Sockets) : s.wires.length = s.connections.length := List.length_map _

theorem wire_of_connection {c : Nat} {k : Connection} (h : s.connections[c]? = some k) :
    s.wire c = k.wire := by
  simp [wire, wires, h]

theorem wire_of_wires (h : s'.wires = s.wires) (c : Nat) : s'.wire c = s.wire c := by
  rw [wire, wire, h]

theorem wire_of_new (h : s'.wires = s.wires ++ [.new]) (c : Nat) : s'.wire c = s.wire c := by
  rw [wire, wire, h]
  obtain hc | hc := lt_or_ge c s.wires.length
  · rw [List.getElem?_append_left hc]
  · rw [List.getElem?_append_right hc, List.getElem?_eq_none hc]
    cases c - s.wires.length <;> rfl

theorem wire_of_modify {c d : Nat} {f : Wire → Wire} (h : s'.wires = s.wires.modify c f)
    (ne : d ≠ c) : s'.wire d = s.wire d := by
  rw [wire, wire, h, List.getElem?_modify_ne _ _ ne.symm]

theorem wire_of_modify_self {c : Nat} {f : Wire → Wire} (h : s'.wires = s.wires.modify c f)
    (lt : c < s.wires.length) : s'.wire c = f (s.wire c) := by
  rw [wire, wire, h, List.getElem?_modify_eq, List.getElem?_eq_getElem lt]
  rfl

theorem wires_modifyConnection (s : Sockets) (c : Nat) {f : Connection → Connection}
    {g : Wire → Wire} (h : ∀ k, s.connections[c]? = some k → (f k).wire = g k.wire) :
    (s.modifyConnection c f).wires = s.wires.modify c g := by
  refine List.ext_getElem? fun n => ?_
  simp only [wires, modifyConnection, List.getElem?_map, List.getElem?_modify]
  cases hk : s.connections[n]? with
  | none => split <;> rfl
  | some k =>
    split
    next hn =>
      subst hn
      simp [h k hk]
    next => simp

theorem wires_modifyConnection_same (s : Sockets) (c : Nat) {f : Connection → Connection}
    (h : ∀ k, (f k).wire = k.wire) : (s.modifyConnection c f).wires = s.wires := by
  rw [wires_modifyConnection s c (g := id) fun k _ => h k, List.modify_id]

theorem wire_close (k : Connection) (side : Side) (abrupt : Bool) :
    (k.close side abrupt).wire = k.wire := by
  cases side <;> rfl

@[simp]
theorem close_wires (s : Sockets) (e : Endpoint) : (s.close e).wires = s.wires :=
  s.wires_modifyConnection_same _ fun k => wire_close k _ _

@[simp]
theorem breakDown_wires (s : Sockets) (e : Endpoint) : (s.breakDown e).wires = s.wires :=
  s.wires_modifyConnection_same _ fun k => wire_close k _ _

@[simp]
theorem shutdownWrite_wires (s : Sockets) (e : Endpoint) : (s.shutdownWrite e).wires = s.wires := by
  refine s.wires_modifyConnection_same _ fun k => ?_
  cases e.side <;> rfl

@[simp]
theorem unlisten_wires (s : Sockets) (entry : Nat) : (s.unlisten entry).wires = s.wires :=
  foldl_modifyConnection wires _
    (fun s id => s.wires_modifyConnection_same id fun k => wire_close k _ _) _ _

@[simp]
theorem unlisten_listening (s : Sockets) (entry : Nat) :
    (s.unlisten entry).listening = s.listening.filter (·.entry != entry) :=
  foldl_modifyConnection listening _ (fun _ _ => rfl) _ _

theorem mem_of_listener? {entry : Nat} {l : Listening} (h : s.listener? entry = some l) :
    l ∈ s.listening ∧ l.entry = entry :=
  ⟨List.mem_of_find?_eq_some h, by simpa using List.find?_some h⟩

theorem mem_of_target? {path : String} {l : Listening} (h : s.target? path = .ok l) :
    l ∈ s.listening := by
  unfold target? at h
  obtain ⟨_, -, h⟩ := Except.bind_eq_ok_iff.mp h
  cases hempty : path.isEmpty with
  | true =>
    rw [hempty] at h
    cases h
  | false =>
    rw [hempty] at h
    dsimp only at h
    rw [if_neg (by simp)] at h
    split at h
    next => cases h
    next => cases h
    next => cases h
    next =>
      split at h
      next hl =>
        cases h
        exact (mem_of_listener? hl).1
      next => cases h

theorem connect_eq_ok {path : String} {e : Endpoint} (h : s.connect path = (.ok e, s')) :
    e = ⟨s.wires.length, .client⟩ ∧ s'.wires = s.wires ++ [.new] ∧
      ∃ l ∈ s.listening,
        s'.listening = (s.setBacklog l.entry (l.backlog ++ [s.wires.length])).listening := by
  unfold connect at h
  split at h
  next => cases h
  next l hl =>
    cases h
    exact ⟨by simp, by simp [wires]; rfl, l, mem_of_target? hl, by simp⟩

theorem write_eq_wrote {e : Endpoint} {data : Bytes} {grain count : Nat}
    (h : s.write e data grain = (.wrote count, s')) :
    s'.listening = s.listening ∧ e.connection < s.wires.length ∧
      s'.wires = match e.side with
        | .client => s.wires.modify e.connection (Wire.send (data.take count))
        | .server => s.wires := by
  unfold write at h
  split at h
  next => cases h
  next k hk =>
    have inside : e.connection < s.wires.length := by
      rw [length_wires]
      exact (List.getElem?_eq_some_iff.mp hk).1
    dsimp only at h
    split at h
    next hempty =>
      cases h
      refine ⟨rfl, inside, ?_⟩
      rw [List.isEmpty_iff.mp hempty, List.take_nil, Wire.send_nil, List.modify_id]
      split <;> rfl
    next =>
      split at h
      next => cases h
      next =>
        split at h
        next => cases h
        next =>
          cases h
          refine ⟨rfl, inside, ?_⟩
          cases hside : e.side with
          | client =>
            refine s.wires_modifyConnection _ fun k' hk' => ?_
            obtain rfl := Option.some.inj (hk.symm.trans hk')
            rfl
          | server => exact s.wires_modifyConnection_same _ fun _ => rfl

/-- The bytes that a read gives. -/
def ReadOutcome.bytes : ReadOutcome → Bytes
  | chunk bytes => bytes
  | _ => []

/-- A server reads on where it has stopped. -/
theorem read_wires {e : Endpoint} {grain : Nat} {outcome : ReadOutcome}
    (h : s.read e grain = (outcome, s')) :
    s'.listening = s.listening ∧ match e.side with
      | .client => s'.wires = s.wires
      | .server => s'.wires = s.wires.modify e.connection (Wire.take outcome.bytes.length) ∧
          outcome.bytes <+: (s.wire e.connection).carried.drop (s.wire e.connection).taken := by
  have stays : (outcome.bytes = [] ∧ s'.listening = s.listening ∧ s'.wires = s.wires) →
      s'.listening = s.listening ∧ match e.side with
        | .client => s'.wires = s.wires
        | .server => s'.wires = s.wires.modify e.connection (Wire.take outcome.bytes.length) ∧
            outcome.bytes <+: (s.wire e.connection).carried.drop (s.wire e.connection).taken := by
    rintro ⟨hnone, hlisten, hwires⟩
    refine ⟨hlisten, ?_⟩
    rw [hnone]
    split
    next => exact hwires
    next => exact ⟨by rw [hwires]; exact (List.modify_id _ _).symm, List.nil_prefix⟩
  unfold read at h
  split at h
  next =>
    cases h
    exact stays ⟨rfl, rfl, rfl⟩
  next k hk =>
    dsimp only at h
    split at h
    next byte rest hunread =>
      cases h
      refine ⟨rfl, ?_⟩
      cases hside : e.side with
      | client => exact s.wires_modifyConnection_same _ fun _ => rfl
      | server =>
        have hwire := wire_of_connection hk
        refine ⟨s.wires_modifyConnection _ fun k' hk' => ?_, ?_⟩
        · obtain rfl := Option.some.inj (hk.symm.trans hk')
          rfl
        · rw [hside] at hunread
          simp only [hwire, ReadOutcome.bytes, ← hunread]
          exact List.take_prefix _ _
    next =>
      split at h
      next =>
        cases h
        exact stays ⟨rfl, rfl, rfl⟩
      next =>
        split at h
        next =>
          cases h
          refine stays ⟨rfl, rfl, ?_⟩
          rw [s.wires_modifyConnection _ (g := id), List.modify_id]
          intro k' hk'
          obtain rfl := Option.some.inj (hk.symm.trans hk')
          cases e.side <;> rfl
        next =>
          split at h <;> cases h <;> exact stays ⟨rfl, rfl, rfl⟩

end Sockets

end EvidenceExchange
