import EvidenceExchange.Proofs.Reaching

namespace EvidenceExchange

/-- The client has all but `rest` of the frame written, and the server has `taken` of it. -/
structure Connection.Carries (c : Connection) (frame taken rest : Bytes) (ended deaf : Bool) :
    Prop where
  sent : c.toServer.carried ++ rest = frame
  seen : taken <+: c.toServer.carried
  read : c.toServer.taken = taken.length
  ended : c.toServer.ended = ended
  deaf : c.toServer.deaf = deaf
  whole : c.toServer.reset = false
  silent : c.toClient.carried = []

namespace Connection.Carries

variable {c : Connection} {frame taken rest : Bytes} {ended deaf : Bool}

theorem new (frame : Bytes) : Connection.new.Carries frame [] frame false false :=
  ⟨rfl, List.nil_prefix, rfl, rfl, rfl, rfl, rfl⟩

theorem carried_eq (h : c.Carries frame taken rest ended deaf) :
    c.toServer.carried = taken ++ c.toServer.unread := by
  obtain ⟨more, carried⟩ := h.seen
  simp only [Pipe.unread, h.read, ← carried, List.drop_left]

theorem frame_eq (h : c.Carries frame taken rest ended deaf) :
    frame = taken ++ c.toServer.unread ++ rest := by
  rw [← h.carried_eq, h.sent]

theorem length_eq (h : c.Carries frame taken rest ended deaf) :
    frame.length = taken.length + c.toServer.unread.length + rest.length := by
  rw [h.frame_eq, List.length_append, List.length_append]

theorem write (h : c.Carries frame taken rest ended deaf) (count : Nat) :
    (c.setOutgoing .client (c.toServer.write (rest.take count))).Carries frame taken
      (rest.drop count) ended deaf where
  sent := by
    rw [← h.sent]
    conv_rhs => rw [← List.take_append_drop count rest]
    exact List.append_assoc ..
  seen := h.seen.trans (List.prefix_append _ _)
  read := h.read
  ended := h.ended
  deaf := h.deaf
  whole := h.whole
  silent := h.silent

/-- The client goes away when it has written all, and nothing was sent to it. -/
theorem finish (h : c.Carries frame taken rest ended deaf) :
    ((c.setOutgoing .client { c.outgoing .client with ended := true }).close .client false).Carries
      frame taken rest true deaf where
  sent := h.sent
  seen := h.seen
  read := h.read
  ended := rfl
  deaf := h.deaf
  whole := by simp [close, incoming, outgoing, setOutgoing, setIncoming, Side.other, Pipe.unreadCount,
    h.silent]
  silent := h.silent

theorem take (h : c.Carries frame taken rest ended deaf) {bytes : Bytes}
    (unread : bytes <+: c.toServer.unread) :
    (c.setIncoming .server (c.toServer.take bytes.length)).Carries frame (taken ++ bytes) rest ended
      deaf where
  sent := h.sent
  seen := by
    change taken ++ bytes <+: c.toServer.carried
    rw [h.carried_eq]
    exact (List.prefix_append_right_inj taken).mpr unread
  read := by
    change c.toServer.taken + bytes.length = (taken ++ bytes).length
    rw [h.read, List.length_append]
  ended := h.ended
  deaf := h.deaf
  whole := h.whole
  silent := h.silent

theorem hangUp (h : c.Carries frame taken rest ended deaf) :
    (c.close .server false).Carries frame taken rest ended true where
  sent := h.sent
  seen := h.seen
  read := h.read
  ended := h.ended
  deaf := rfl
  whole := h.whole
  silent := h.silent

end Connection.Carries

namespace Sockets.Hosts

variable {s : Sockets} {listening : List Listening} {c : Connection} {frame taken rest : Bytes}
  {ended deaf : Bool} {grain : Nat}

theorem connection (h : s.Hosts listening [c]) : s.connections[0]? = some c := by
  rw [h.connections]
  rfl

theorem modify (h : s.Hosts listening [c]) (f : Connection → Connection) :
    (s.modifyConnection 0 f).Hosts listening [f c] :=
  ⟨h.listening, by simp [modifyConnection, h.connections], h.acceptFault⟩

/-- A write makes headway, or something is left to read. -/
theorem write (h : s.Hosts listening [c]) (carries : c.Carries frame taken rest false false)
    (more : rest ≠ []) (pos : 0 < grain) :
    (s.write ⟨0, .client⟩ rest grain = (.blocked, s) ∧ c.toServer.unread ≠ []) ∨
      ∃ count s' c', 0 < count ∧ s.write ⟨0, .client⟩ rest grain = (.wrote count, s') ∧
        s'.Hosts listening [c'] ∧ c'.Carries frame taken (rest.drop count) false false := by
  have some_left : rest.isEmpty = false := by simpa using more
  have length : 0 < rest.length := List.length_pos_iff.mpr more
  have open_ : (c.toServer.deaf || c.toServer.ended) = false := by rw [carries.deaf, carries.ended]; rfl
  simp only [Sockets.write, h.connection, some_left, Connection.outgoing, open_, Bool.false_eq_true,
    if_false]
  by_cases full : min (min rest.length grain) (Pipe.capacity - c.toServer.unreadCount) = 0
  · refine .inl ⟨if_pos full, fun empty => ?_⟩
    have count : c.toServer.unread.length = c.toServer.unreadCount := List.length_drop
    rw [empty, List.length_nil] at count
    rw [← count, Pipe.capacity] at full
    omega
  · refine .inr ⟨_, _, _, Nat.pos_of_ne_zero full, if_neg full, h.modify _, ?_⟩
    exact carries.write _

/-- The client closes the connection behind the last bytes that it writes. -/
theorem finish (h : s.Hosts listening [c]) (carries : c.Carries frame taken rest ended deaf) :
    ∃ c', ((s.shutdownWrite ⟨0, .client⟩).close ⟨0, .client⟩).Hosts listening [c'] ∧
      c'.Carries frame taken rest true deaf :=
  ⟨_, (h.modify _).modify _, carries.finish⟩

/-- What is there to be read is read, in pieces of any size. -/
theorem read (h : s.Hosts listening [c]) (carries : c.Carries frame taken rest ended deaf)
    (there : c.toServer.unread ≠ []) (pos : 0 < grain) :
    ∃ bytes s' c', s.read ⟨0, .server⟩ grain = (.chunk bytes, s') ∧ bytes ≠ [] ∧
      bytes.length ≤ grain ∧ s'.Hosts listening [c'] ∧
      c'.Carries frame (taken ++ bytes) rest ended deaf := by
  obtain ⟨byte, bytes, cut⟩ : ∃ byte bytes, c.toServer.unread.take grain = byte :: bytes := by
    refine List.exists_cons_of_ne_nil fun none => there ?_
    exact (List.take_eq_nil_iff.mp none).resolve_left pos.ne'
  have unread : byte :: bytes <+: c.toServer.unread := cut ▸ List.take_prefix _ _
  have size : (byte :: bytes).length ≤ grain := cut ▸ List.length_take_le _ _
  simp only [Sockets.read, h.connection, Connection.incoming, Side.other, Connection.outgoing, cut]
  exact ⟨_, _, _, rfl, List.cons_ne_nil _ _, size, h.modify _, carries.take unread⟩

theorem read_blocked (h : s.Hosts listening [c]) (carries : c.Carries frame taken rest false deaf)
    (none : c.toServer.unread = []) : s.read ⟨0, .server⟩ grain = (.blocked, s) := by
  have count : c.toServer.unread.length = c.toServer.unreadCount := List.length_drop
  rw [none, List.length_nil] at count
  simp only [Sockets.read, h.connection, Connection.incoming, Side.other, Connection.outgoing, none,
    List.take_nil, ← count, carries.whole, carries.ended]
  simp

theorem hangUp (h : s.Hosts listening [c]) (carries : c.Carries frame taken rest ended deaf) :
    ∃ c', (s.close ⟨0, .server⟩).Hosts listening [c'] ∧ c'.Carries frame taken rest ended true :=
  ⟨_, h.modify _, carries.hangUp⟩

end Sockets.Hosts

end EvidenceExchange
