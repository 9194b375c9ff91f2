import EvidenceExchange.Proofs.Peering
import EvidenceExchange.Proofs.Receiving
import EvidenceExchange.Proofs.Sending

namespace EvidenceExchange

open Evidence

namespace Role

/-- A call that uses the binary form. -/
def Binary : Role → Prop
  | receiver r => r.codec = .binary
  | sender d => d.codec = .binary
  | peer _ => True

def Consistent (role : Role) (k : Nat) (log : List LogEvent) (s : Sockets) (h : History) : Prop :=
  match role with
  | receiver r => r.Consistent k log s h
  | sender d => d.Consistent k log s h
  | peer p => p.Holds k h

variable {role : Role} {k : Nat} {log : List LogEvent} {s s' : Sockets} {h h' : History}

theorem consistent_of_new (isNew : role.IsNew) (s : Sockets) : role.Consistent k [] s .empty := by
  cases role with
  | receiver r =>
    refine (Receiver.consistent_iff_of_early ?_).mpr ⟨fun c => List.not_mem_nil, rfl⟩
    rw [show r.phase = .starting from isNew]
    simp [Receiver.Phase.rank]
  | sender d =>
    have phase : d.phase = .starting := isNew
    simp only [Consistent, Sender.Consistent, phase]
    exact ⟨fun c => by simp [History.empty], rfl⟩
  | peer p =>
    obtain ⟨steps, rfl⟩ := isNew
    exact ⟨fun e g => by simp [Peer.new] at g, trivial⟩

theorem Consistent.other {i : Nat} (inv : role.Consistent k log s h) (sound : s.Sound h)
    (ne : k ≠ i) (t : Traffic i s h s' h') : role.Consistent k log s' h' := by
  cases role with
  | receiver r => exact Receiver.Consistent.other inv sound ne t
  | sender d => exact Sender.Consistent.other inv ne t
  | peer p => exact Peer.Holds.mono inv t.gave

theorem Does.follows {ts : Tokens} {now : Nat} {m : RoleMove} (does : role.Does ts now s m)
    (binary : role.Binary) (sound : s.Sound h) (inv : role.Consistent k log s h) :
    m.role.Binary ∧ ∃ h', h.Becomes k role.stream? m.role.stream? h' ∧
      Traffic k s h m.sockets h' ∧ m.role.Consistent k (log ++ m.log) m.sockets h' := by
  cases role with
  | receiver r =>
    obtain ⟨o, did, rfl⟩ := does_receiver does
    have turn := Receiver.turn_of_does did
    obtain ⟨_, same, -⟩ := turn.ahead
    exact ⟨(congrArg Receiver.codec same).trans binary, turn.follows binary sound inv⟩
  | sender d =>
    obtain ⟨o, did, rfl⟩ := does_sender does
    have turn := Sender.turn_of_does did
    obtain ⟨_, same⟩ := turn.same_call
    exact ⟨(congrArg Sender.codec same).trans binary, turn.follows binary sound inv⟩
  | peer p =>
    obtain rfl | ⟨grain, o, move, rfl⟩ := does_peer does
    · exact ⟨trivial, h, .same fun _ _ => rfl, sound.still (.refl s) k, inv⟩
    · exact ⟨trivial, Peer.move_follows sound inv move⟩

end Role

/-- A receive that has returned a bundle. -/
def Actor.Received (a : Actor) (b : Bundle) : Prop :=
  ∃ r, a.role = .receiver r ∧ r.phase = .settled (.returned (.ok b))

namespace Exchange

/-- All bundles are sent and received in the binary form. -/
def Binary (x : Exchange) : Prop := ∀ a ∈ x.actors, a.role.Binary

def HasSender (x : Exchange) (k : Nat) (d : Sender) : Prop :=
  ∃ a, x.actors[k]? = some a ∧ a.role = .sender d

/-- Everybody is as the history tells. -/
structure Accounted (x : Exchange) (h : History) : Prop where
  sound : x.sockets.Sound h
  binary : ∀ {k : Nat} {a : Actor}, x.actors[k]? = some a → a.role.Binary
  consistent : ∀ {k : Nat} {a : Actor}, x.actors[k]? = some a → a.role.Consistent k a.log x.sockets h

theorem Initial.accounted {x : Exchange} (initial : x.Initial) (binary : x.Binary) :
    x.Accounted .empty where
  sound := by
    have wires : x.sockets.wires = [] := by simp [Sockets.wires, initial.connections]
    have wire : ∀ c, x.sockets.wire c = .new := fun c => by simp [Sockets.wire, wires]
    exact
      { openers := by simp [History.empty, wires]
        made := fun hc => absurd hc List.not_mem_nil
        acceptor := fun hc => absurd hc List.not_mem_nil
        taken := fun c => by simp [wire, Wire.new]
        untaken := fun _ => by simp [wire, Wire.new]
        entries := by simp [initial.listening]
        fresh := by simp [initial.listening]
        waiting := by simp [initial.listening]
        unaccepted := by simp [initial.listening] }
  binary ha := binary _ (List.mem_of_getElem? ha)
  consistent ha := by
    obtain ⟨isNew, log⟩ := initial.isNew _ (List.mem_of_getElem? ha)
    rw [log]
    exact Role.consistent_of_new isNew _

theorem Accounted.move {now i : Nat} {x : Exchange} {a : Actor} {m : RoleMove} {h : History}
    (inv : x.Accounted h) (here : x.actors[i]? = some a)
    (does : a.role.Does x.tokens now x.sockets m) :
    let y := x.settle i now a m
    y.Accounted (h.next i x.sockets y.sockets (x.stream? i) (y.stream? i)) := by
  obtain ⟨binary, h', becomes, traffic, consistent⟩ :=
    does.follows (inv.binary here) inv.sound (inv.consistent here)
  have before : x.stream? i = a.role.stream? := by simp [stream?, here]
  have after : (x.settle i now a m).stream? i = m.role.stream? := by
    simp [stream?, settle_actors_self here, Actor.after]
  have history :
      h.next i x.sockets m.sockets (x.stream? i) ((x.settle i now a m).stream? i) = h' := by
    rw [before, after, History.next_of_becomes becomes inv.sound traffic.sound]
  dsimp only
  rw [show (x.settle i now a m).sockets = m.sockets from rfl, history]
  refine ⟨traffic.sound, fun hb => ?_, fun hb => ?_⟩
  · obtain ⟨rfl, rfl⟩ | ⟨ne, hb⟩ := settle_actors_cases here hb
    · exact binary
    · exact inv.binary hb
  · obtain ⟨rfl, rfl⟩ | ⟨ne, hb⟩ := settle_actors_cases here hb
    · exact consistent
    · exact (inv.consistent hb).other inv.sound ne traffic

theorem Accounted.recorded {a b : Nat × Exchange} {h : History} (inv : a.2.Accounted .empty)
    (recorded : Recorded a h b) : b.2.Accounted h := by
  induction recorded with
  | start => exact inv
  | idle _ step ih =>
    cases step with
    | wait => exact ih
    | cancel => exact ⟨ih.sound, ih.binary, ih.consistent⟩
    | @carryOut now x call =>
      have traffic := ih.sound.still (x.sockets.still_carryOut call)
      refine ⟨(traffic 0).sound, ih.binary, fun {k} {a} here => ?_⟩
      exact (ih.consistent here).other ih.sound (Nat.ne_add_one k) (traffic (k + 1))
  | move _ step ih =>
    cases step with
    | move here _ does => exact ih.move here does

theorem Step.sender {mover : Option Nat} {a b : Nat × Exchange} {k : Nat} {d : Sender}
    (step : Step mover a b) (hk : a.2.HasSender k d) : ∃ phase, b.2.HasSender k (d.goTo phase) := by
  obtain ⟨c, hc, hd⟩ := hk
  obtain ⟨-, hc'⟩ | ⟨-, m, does, hc'⟩ := step.actor hc
  · exact ⟨d.phase, c, hc', hd⟩
  · rw [hd] at does
    obtain ⟨o, did, rfl⟩ := Role.does_sender does
    obtain ⟨phase, same⟩ := (Sender.turn_of_does did).same_call
    exact ⟨phase, _, hc', congrArg Role.sender same⟩

theorem Recorded.sender {a b : Nat × Exchange} {h : History} {k : Nat} {d : Sender}
    (recorded : Recorded a h b) (hk : a.2.HasSender k d) :
    ∃ phase, b.2.HasSender k (d.goTo phase) := by
  induction recorded with
  | start => exact ⟨d.phase, hk⟩
  | idle _ step ih | move _ step ih =>
    obtain ⟨phase, hk'⟩ := ih
    obtain ⟨phase', hk''⟩ := step.sender hk'
    exact ⟨phase', hk''⟩

/-- What a receive has returned went whole over the one connection that it accepted. -/
theorem Accounted.received {x : Exchange} {h : History} (inv : x.Accounted h) {i : Nat} {a : Actor}
    {b : Bundle} (here : x.actors[i]? = some a) (received : a.Received b) :
    ∃ e c k j, b.encode = .ok e ∧ h.AcceptedOnly i c ∧ x.sockets.connections[c]? = some k ∧
      h.openers[c]? = some j ∧ Frame.verdict Frame.maxPayload k.toServer.carried = .ok e ∧
      deliveries a.log = [⟨b.length, e.length, Digest.short e⟩] := by
  obtain ⟨r, role, phase⟩ := received
  have consistent := inv.consistent here
  rw [role] at consistent
  simp only [Role.Consistent, Receiver.Consistent, phase] at consistent
  obtain ⟨e, c, encoded, accepted, carried, told⟩ := consistent
  have made := inv.sound.made ((accepted c).mpr rfl)
  have opened := inv.sound.openers ▸ made
  rw [Sockets.length_wires] at made
  have connection := List.getElem?_eq_getElem made
  rw [Sockets.wire_of_connection connection] at carried
  exact ⟨e, c, _, _, encoded, accepted, connection, List.getElem?_eq_getElem opened, carried, told⟩

/-- A sender whose connection has given a bundle to its acceptor has returned, and it was its own. -/
theorem Accounted.sent {x : Exchange} {h : History} (inv : x.Accounted h) {i j c : Nat} {a : Actor}
    {b : Bundle} {d : Sender} (sender : x.HasSender j d) (opened : h.openers[c]? = some j)
    (accepted : (i, c) ∈ h.accepted) (here : x.actors[i]? = some a) (received : a.Received b) :
    ∃ a' e, x.actors[j]? = some a' ∧ a'.role = .sender d ∧ h.OpenedOnly j c ∧
      d.phase = .settled (.returned (.ok ())) ∧ d.bundle = b ∧ b.encode = .ok e ∧
      deliveries a'.log = [⟨b.length, e.length, Digest.short e⟩] := by
  obtain ⟨e, c', k, _, encoded, only, connection, -, carried, -⟩ := inv.received here received
  obtain rfl := (only c).mp accepted
  obtain ⟨a', ha', role⟩ := sender
  have consistent := inv.consistent ha'
  rw [role] at consistent
  have read : Frame.verdict Frame.maxPayload (x.sockets.wire c).carried = .ok e := by
    rw [Sockets.wire_of_connection connection]
    exact carried
  obtain ⟨phase, single, encoded', told⟩ := consistent.returned opened read
  have same : d.bundle = b := by
    have decoded := Bundle.decode_eq_ok_iff_encode.mpr encoded
    exact Except.ok.inj ((Bundle.decode_eq_ok_iff_encode.mpr encoded').symm.trans decoded)
  exact ⟨a', e, ha', role, single, phase, same, encoded, same ▸ told⟩

/-- Delivery integrity: a bundle is received only over a connection that carries its whole frame, from
a sender that was given it and has returned; a sender that has not returned delivers nothing, and
one that has delivers to one receiver. -/
theorem delivery_integrity {t now : Nat} {start x : Exchange} {h : History}
    (initial : start.Initial) (binary : start.Binary)
    (recorded : Recorded (t, start) h (now, x)) :
    (∀ {i a b}, x.actors[i]? = some a → a.Received b →
      ∃ c j k e w, h.AcceptedOnly i c ∧ h.openers[c]? = some j ∧
        x.sockets.connections[c]? = some k ∧ b.encode = .ok e ∧ Frame.encode e = .ok w ∧
        w <+: k.toServer.carried ∧
        ∀ {d}, start.HasSender j d →
          b = d.bundle ∧ ∃ a', x.actors[j]? = some a' ∧
            a'.role = .sender (d.goTo (.settled (.returned (.ok ())))) ∧
            deliveries a.log = [⟨b.length, e.length, Digest.short e⟩] ∧
            deliveries a'.log = [⟨b.length, e.length, Digest.short e⟩]) ∧
    (∀ {i j c a b d}, x.HasSender j d → d.phase ≠ .settled (.returned (.ok ())) →
      h.openers[c]? = some j → (i, c) ∈ h.accepted → x.actors[i]? = some a → ¬a.Received b) ∧
    (∀ {i i' j c c' a a' b b' d}, x.HasSender j d →
      h.openers[c]? = some j → (i, c) ∈ h.accepted → x.actors[i]? = some a → a.Received b →
      h.openers[c']? = some j → (i', c') ∈ h.accepted → x.actors[i']? = some a' → a'.Received b' →
      i = i') := by
  have inv := (initial.accounted binary).recorded recorded
  refine ⟨?_, ?_, ?_⟩
  · intro i a b here received
    obtain ⟨e, c, k, j, encoded, only, connection, opened, carried, told⟩ :=
      inv.received here received
    obtain ⟨w, framed, whole⟩ := Frame.verdict_eq_ok_iff_encode.mp carried
    refine ⟨c, j, k, e, w, only, opened, connection, encoded, framed, whole, fun {d} given => ?_⟩
    obtain ⟨phase, sender⟩ := recorded.sender given
    obtain ⟨a', e', ha', role, -, done, rfl, encoded', told'⟩ :=
      inv.sent sender opened ((only c).mpr rfl) here received
    obtain rfl := Except.ok.inj (encoded.symm.trans encoded')
    have ended : phase = .settled (.returned (.ok ())) := done
    exact ⟨rfl, a', ha', by rw [role, ended], told, told'⟩
  · intro i j c a b d sender unfinished opened accepted here received
    obtain ⟨-, -, -, -, -, done, -⟩ := inv.sent sender opened accepted here received
    exact unfinished done
  · intro i i' j c c' a a' b b' d sender opened accepted here received opened' accepted' _ _
    obtain ⟨-, -, -, -, only, -⟩ := inv.sent sender opened accepted here received
    obtain rfl := (only c').mp opened'
    exact inv.sound.acceptor accepted accepted'

/-- A receiver and a sender with one path, and a bundle of one piece. -/
def oneOfEach : Exchange where
  root := ⟨0, []⟩
  tokens := ⟨1, []⟩
  cancels := []
  sockets := .empty
  actors := [
    ⟨0, .receiver ⟨.withSocket "s", .binary, .ofToken ⟨0, []⟩, .starting⟩, none, [], none⟩,
    ⟨0, .sender ⟨.withSocket "s", .binary, .ofToken ⟨0, []⟩, [⟨.tdxReport, [1, 2], [3]⟩],
      .starting⟩, none, [], none⟩]
  turn := none

/-- After nine moves both have returned, and both tell of the same delivery. -/
theorem delivery_integrity_one_of_each :
    ∃ b h c a a', Recorded (0, oneOfEach) h b ∧ b.2.actors[0]? = some a ∧
      a.Received [⟨.tdxReport, [1, 2], [3]⟩] ∧ h.AcceptedOnly 0 c ∧ h.openers[c]? = some 1 ∧
      b.2.actors[1]? = some a' ∧ deliveries a.log = deliveries a'.log := by
  have initial : oneOfEach.Initial := by
    refine ⟨FileSystem.wellFormed_empty, rfl, rfl, fun a ha => ?_⟩
    obtain rfl | rfl : a = _ ∨ a = _ := by simpa [oneOfEach] using ha
    · exact ⟨rfl, rfl⟩
    · exact ⟨rfl, rfl⟩
  have binary : oneOfEach.Binary := by
    intro a ha
    obtain rfl | rfl : a = _ ∨ a = _ := by simpa [oneOfEach] using ha
    · exact rfl
    · exact rfl
  have run := run_of_reaches (clockwork.reaches_run 9 (0, oneOfEach))
  have received : ∃ a, (clockwork.run 9 (0, oneOfEach)).2.actors[0]? = some a ∧
      a.Received [⟨.tdxReport, [1, 2], [3]⟩] :=
    ⟨_, rfl, ⟨.withSocket "s", .binary, .ofToken ⟨0, []⟩, .settled (.returned (.ok _))⟩, rfl, rfl⟩
  have sent : ∃ a, (clockwork.run 9 (0, oneOfEach)).2.actors[1]? = some a ∧
      a.role = .sender ⟨.withSocket "s", .binary, .ofToken ⟨0, []⟩, [⟨.tdxReport, [1, 2], [3]⟩],
        .settled (.returned (.ok ()))⟩ := ⟨_, rfl, rfl⟩
  have connected : (clockwork.run 9 (0, oneOfEach)).2.sockets.connections.length = 1 := rfl
  generalize clockwork.run 9 (0, oneOfEach) = b at run received sent connected
  obtain ⟨h, recorded⟩ := exists_recorded run
  have inv := (initial.accounted binary).recorded recorded
  obtain ⟨a, here, got⟩ := received
  obtain ⟨a', here', role⟩ := sent
  obtain ⟨c, j, k, e, w, only, opened, connection, -, -, -, delivered⟩ :=
    (delivery_integrity initial binary recorded).1 here got
  -- There is one connection, so that the receiver's is the sender's.
  have consistent := inv.consistent here'
  rw [role] at consistent
  simp only [Role.Consistent, Sender.Consistent] at consistent
  obtain ⟨payload, c', -, opened', -⟩ := consistent
  have by_sender : h.openers[c]? = some 1 := by
    have hc := (List.getElem?_eq_some_iff.mp connection).1
    have hc' := (List.getElem?_eq_some_iff.mp ((opened' c').mpr rfl)).1
    rw [inv.sound.openers, Sockets.length_wires] at hc'
    exact (opened' c).mpr (by omega)
  obtain rfl := Option.some.inj (by_sender.symm.trans opened)
  obtain ⟨-, a'', here'', -, told, told'⟩ := delivered ⟨_, rfl, rfl⟩
  exact ⟨b, h, c, a, a'', recorded, here, got, only, opened, here'', told.trans told'.symm⟩

end Exchange

end EvidenceExchange
