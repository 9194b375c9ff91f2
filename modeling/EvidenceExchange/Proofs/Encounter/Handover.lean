import EvidenceExchange.Proofs.Encounter.Calling
import EvidenceExchange.Proofs.Encounter.Awaiting
import EvidenceExchange.Proofs.Frame.Outcome
import EvidenceExchange.Proofs.Frame.Space

namespace EvidenceExchange

namespace Exchange.Encounter

variable {x : Exchange} (e : Encounter x)

/-- A sender that has connected, with what it has not written yet and whether it has gone. -/
inductive Writing (t : Nat) : Bytes → Bool → Sender.Phase → Option Nat → Prop
  | writing {rest} (more : rest ≠ []) :
      Writing t rest false (.writing e.payload ⟨0, .client⟩ rest) none
  | sent : Writing t [] true (.settled (.returned (.ok ()))) (some t)

/-- A receiver that somebody has connected to, with its listener, what it has taken of the frame and
whether it has gone. -/
inductive Reading (t : Nat) : List Listening → Bytes → Bool → Receiver.Phase → Option Nat → Prop
  | accepting {li : SocketListener} :
      Reading t [⟨li.entry, [0]⟩] [] false (.accepting li (.ofMillis e.closes)) none
  | reading {taken reader} (ready : reader.Ready taken) (more : taken ≠ e.frame) :
      Reading t [] taken false (.reading ⟨0, .server⟩ (.ofMillis e.closes) reader) none
  | received : Reading t [] e.frame true (.settled (.returned (.ok e.d.bundle))) (some t)

/-- The frame on its way, in part or as a whole, from the instant of the attempt that connected. -/
inductive Handover (t : Nat) (s : Sockets) (p : Sender.Phase) (u : Option Nat) (q : Receiver.Phase)
    (v : Option Nat) : Prop
  | intro {listening c taken rest ended deaf} (hosts : s.Hosts listening [c])
      (carries : c.Carries e.frame taken rest ended deaf) (writing : e.Writing t rest ended p u)
      (reading : e.Reading t listening taken deaf q v) : Handover t s p u q v

variable {e} {t grain : Nat} {s : Sockets} {p p' : Sender.Phase} {u : Option Nat}
  {q q' : Receiver.Phase} {v : Option Nat} {c : Connection} {taken rest : Bytes} {ended deaf : Bool}

/-- A sender writes as long as there is room. -/
theorem write_move {listening : List Listening} (hosts : s.Hosts listening [c])
    (carries : c.Carries e.frame taken rest false false) (more : rest ≠ []) (pos : 0 < grain) :
    ((e.d.goTo (.writing e.payload ⟨0, .client⟩ rest)).move grain x.tokens t s = none ∧
        c.toServer.unread ≠ []) ∨
      ∃ p' s' log rest' ended' c', (e.d.goTo (.writing e.payload ⟨0, .client⟩ rest)).move grain
          x.tokens t s = some ⟨e.d.goTo p', s', log⟩ ∧
        e.Writing t rest' ended' p' (if (e.d.goTo p').isOver then some t else none) ∧
        s'.Hosts listening [c'] ∧ c'.Carries e.frame taken rest' ended' false ∧
        e.callerSteps t p' < rest.length := by
  have live := e.senderLasts.pollDone t
  simp only [Sender.move, Sender.goTo, Sender.write, live]
  obtain ⟨blocked, there⟩ | ⟨count, s', c', some_, wrote, hosts', carries'⟩ :=
    hosts.write carries more pos
  · rw [blocked]
    exact .inl ⟨rfl, there⟩
  · rw [wrote]
    dsimp only
    have length : (rest.drop count).length < rest.length := by
      have := List.length_pos_iff.mpr more
      rw [List.length_drop]
      omega
    cases left : rest.drop count with
    | nil =>
      rw [left] at carries'
      obtain ⟨c'', hosts'', carries''⟩ := hosts'.finish carries'
      refine .inr ⟨_, _, _, [], true, c'', rfl, .sent, hosts'', carries'', ?_⟩
      simp only [callerSteps]
      omega
    | cons byte bytes =>
      rw [left] at carries' length
      exact .inr ⟨_, _, _, byte :: bytes, false, c', rfl, .writing (List.cons_ne_nil _ _), hosts',
        carries', length⟩

/-- A connection that waits is accepted, before the deadline or at it. -/
theorem accept_move (e : Encounter x) (t grain : Nat) {li : SocketListener}
    (hosts : s.Hosts [⟨li.entry, [0]⟩] [c]) :
    ∃ s' log, (e.r.goTo (.accepting li (.ofMillis e.closes))).move grain x.tokens t s =
        some ⟨e.r.goTo (.reading ⟨0, .server⟩ (.ofMillis e.closes) (.new .new)), s', log⟩ ∧
      s'.Hosts [] [c] := by
  have live := e.receiverLasts.pollDone t
  obtain ⟨s', log, accepts, accepted⟩ := hosts.accept
  simp only [Receiver.move, Receiver.goTo, Receiver.accept, live, accepts]
  exact ⟨_, _, rfl, accepted.closeListener⟩

/-- What is there is read, and the last byte of the frame ends the exchange. -/
theorem read_move {reader : FrameReader} (hosts : s.Hosts [] [c])
    (carries : c.Carries e.frame taken rest ended false) (ready : reader.Ready taken)
    (there : c.toServer.unread ≠ []) (pos : 0 < grain) :
    ∃ q' s' log taken' deaf' c', (e.r.goTo (.reading ⟨0, .server⟩ (.ofMillis e.closes) reader)).move
        grain x.tokens t s = some ⟨e.r.goTo q', s', log⟩ ∧
      e.Reading t [] taken' deaf' q' (if (e.r.goTo q').isOver then some t else none) ∧
      s'.Hosts [] [c'] ∧ c'.Carries e.frame taken' rest ended deaf' ∧
      e.hostSteps t q' < e.frame.length - taken.length := by
  have live := e.receiverLasts.pollDone t
  have room : 0 < min grain reader.room := lt_min pos ready.room
  obtain ⟨bytes, s', c', took, some_, size, hosts', carries'⟩ := hosts.read carries there room
  obtain ⟨verdict, further⟩ := ready.read (size.trans (Nat.min_le_right ..))
  have length := carries'.length_eq
  have progress := List.length_pos_iff.mpr some_
  simp only [Receiver.move, Receiver.goTo, Receiver.read, live, took]
  rw [List.length_append] at length
  cases answer : (reader.feed bytes).poll with
  | mk decided reader' =>
    rw [answer] at verdict further
    by_cases whole : taken ++ bytes = e.frame
    · rw [whole, Frame.verdict?_of_frame e.framed le_rfl] at verdict
      have decoded : e.r.codec.decode e.payload = .ok e.d.bundle := by
        rw [e.receiverCodec]
        exact Evidence.Bundle.decode_eq_ok_iff_encode.mpr e.encoded
      obtain ⟨c'', hosts'', carries''⟩ := hosts'.hangUp carries'
      rw [whole] at carries''
      obtain rfl : decided = _ := verdict
      simp only [Receiver.decide, Receiver.decode, decoded]
      refine ⟨_, _, _, e.frame, true, c'', rfl, .received, hosts'', carries'', ?_⟩
      simp only [hostSteps]
      omega
    · have short : c'.toServer.unread ++ rest ≠ [] := by
        intro none
        have frame_eq := carries'.frame_eq
        rw [List.append_assoc, none, List.append_nil] at frame_eq
        exact whole frame_eq.symm
      have framed := e.framed
      rw [carries'.frame_eq, List.append_assoc] at framed
      rw [Frame.verdict?_of_part framed le_rfl short] at verdict
      obtain rfl : decided = none := verdict
      have ready' := further rfl
      refine ⟨_, _, _, taken ++ bytes, false, c', rfl, .reading ready' whole, hosts', carries', ?_⟩
      simp only [hostSteps, ready'.holds.held_eq, List.length_append]
      omega

/-- Before the deadline the receiver waits for what is yet to be written. -/
theorem read_still {reader : FrameReader} (hosts : s.Hosts [] [c])
    (carries : c.Carries e.frame taken rest false deaf) (none : c.toServer.unread = [])
    (early : t < e.closes) :
    (e.r.goTo (.reading ⟨0, .server⟩ (.ofMillis e.closes) reader)).move grain x.tokens t s = .none := by
  have live := e.receiverLasts.pollDone t
  have unfired : Context.timerFired (.ofMillis e.closes) t = false := by
    rw [Context.timerFired, Instant.tick_ofMillis, decide_eq_false_iff_not]
    exact not_le.mpr early
  simp only [Receiver.move, Receiver.goTo, Receiver.read, live, hosts.read_blocked carries none, unfired]
  rfl

/-- Who has received the frame as a whole has left nothing to write. -/
theorem Reading.undone {listening : List Listening} (reading : e.Reading t listening taken deaf q v)
    (carries : c.Carries e.frame taken rest ended deaf) (more : rest ≠ []) : deaf = false := by
  cases reading with
  | accepting | reading => rfl
  | received =>
    have length := carries.length_eq
    have some_ := List.length_pos_iff.mpr more
    omega

/-- Where the frame is written and not yet taken, there is something to read. -/
theorem Writing.there (writing : e.Writing t rest true p u)
    (carries : c.Carries e.frame taken rest true deaf) (more : taken ≠ e.frame) :
    c.toServer.unread ≠ [] := by
  cases writing with
  | sent =>
    intro none
    have frame_eq := carries.frame_eq
    rw [none, List.append_nil, List.append_nil] at frame_eq
    exact more frame_eq.symm

namespace Handover

theorem begin {li : SocketListener} (hosts : s.Hosts [⟨li.entry, [0]⟩] [.new]) :
    e.Handover t s (.writing e.payload ⟨0, .client⟩ e.frame) none
      (.accepting li (.ofMillis e.closes)) none :=
  .intro hosts (.new e.frame) (.writing (Frame.ne_nil_of_encode e.framed)) .accepting

theorem caller_step {o : Outcome Sender} (h : e.Handover t s p u q v) (pos : 0 < grain)
    (moved : (e.d.goTo p).move grain x.tokens t s = some o) (after : o.value = e.d.goTo p') :
    e.Handover t o.sockets p' (if (e.d.goTo p').isOver then u <|> some t else none) q v ∧
      (e.d.goTo p).attempt? x.tokens t s = none ∧ e.callerSteps t p' < e.callerSteps t p := by
  obtain ⟨hosts, carries, writing, reading⟩ := h
  cases writing with
  | writing more =>
    obtain rfl := reading.undone carries more
    obtain ⟨still, -⟩ | ⟨p'', s', log, rest', ended', c', moves, writing', hosts', carries', less⟩ :=
      write_move hosts carries more pos
    · cases still.symm.trans moved
    · obtain rfl := Option.some.inj (moves.symm.trans moved)
      obtain rfl : p'' = p' := congrArg Sender.phase after
      exact ⟨.intro hosts' carries' writing' reading, rfl, less⟩
  | sent => cases moved

theorem host_step {o : Outcome Receiver} (h : e.Handover t s p u q v) (early : t < e.closes)
    (pos : 0 < grain) (moved : (e.r.goTo q).move grain x.tokens t s = some o)
    (after : o.value = e.r.goTo q') :
    e.Handover t o.sockets p u q' (if (e.r.goTo q').isOver then v <|> some t else none) ∧
      e.hostSteps t q' < e.hostSteps t q := by
  obtain @⟨_, c, taken, _, ended, _, hosts, carries, writing, reading⟩ := h
  cases reading with
  | accepting =>
    obtain ⟨s', log, moves, hosts'⟩ := accept_move e t grain hosts
    obtain rfl := Option.some.inj (moves.symm.trans moved)
    obtain rfl : .reading ⟨0, .server⟩ (.ofMillis e.closes) (.new .new) = q' :=
      congrArg Receiver.phase after
    have some_ : [] ≠ e.frame := (Frame.ne_nil_of_encode e.framed).symm
    refine ⟨.intro hosts' carries writing (.reading FrameReader.ready_new some_), ?_⟩
    simp only [hostSteps]
    split <;> omega
  | @reading _ reader ready more =>
    by_cases there : c.toServer.unread = []
    · cases ended with
      | true => exact absurd there (writing.there carries more)
      | false => cases (read_still hosts carries there early).symm.trans moved
    · obtain ⟨q'', s', log, taken', deaf', c', moves, reading', hosts', carries', less⟩ :=
        read_move hosts carries ready there pos
      obtain rfl := Option.some.inj (moves.symm.trans moved)
      obtain rfl : q'' = q' := congrArg Receiver.phase after
      refine ⟨.intro hosts' carries' writing reading', ?_⟩
      rw [hostSteps, ready.holds.held_eq]
      exact less
  | received => cases moved

/-- Only when both are done can neither move. -/
theorem over_of_idle (h : e.Handover t s p u q v) (pos : 0 < grain)
    (caller : (e.d.goTo p).move grain x.tokens t s = none)
    (host : (e.r.goTo q).move grain x.tokens t s = none) :
    p = .settled (.returned (.ok ())) ∧ u = some t ∧
      q = .settled (.returned (.ok e.d.bundle)) ∧ v = some t := by
  obtain @⟨_, c, taken, _, ended, _, hosts, carries, writing, reading⟩ := h
  have undone := reading.undone carries
  cases reading with
  | accepting =>
    obtain ⟨_, _, moves, -⟩ := accept_move e t grain hosts
    cases host.symm.trans moves
  | reading ready more =>
    have there : c.toServer.unread ≠ [] := by
      cases writing with
      | sent => exact (Writing.sent : e.Writing t _ _ _ _).there carries more
      | writing unsent =>
        obtain ⟨-, there⟩ | ⟨_, _, _, _, _, _, moves, -⟩ :=
          write_move (t := t) hosts carries unsent pos
        · exact there
        · cases caller.symm.trans moves
    obtain ⟨_, _, _, _, _, _, moves, -⟩ := read_move (t := t) hosts carries ready there pos
    cases host.symm.trans moves
  | received =>
    cases writing with
    | sent => exact ⟨rfl, rfl, rfl, rfl⟩
    | writing unsent => cases undone unsent

end Handover

end Exchange.Encounter

end EvidenceExchange
