import EvidenceExchange.Proofs.History
import EvidenceExchange.Proofs.Wires

namespace EvidenceExchange

/-- What holds of sockets and the history that led to them. -/
structure Sockets.Sound (s : Sockets) (h : History) : Prop where
  openers : h.openers.length = s.wires.length
  made : ∀ {i c}, (i, c) ∈ h.accepted → c < s.wires.length
  acceptor : ∀ {i j c}, (i, c) ∈ h.accepted → (j, c) ∈ h.accepted → i = j
  taken : ∀ c, (s.wire c).taken ≤ (s.wire c).carried.length
  untaken : ∀ {c}, (∀ i, (i, c) ∉ h.accepted) → (s.wire c).taken = 0
  entries : (s.listening.map Listening.entry).Nodup
  fresh : ∀ l ∈ s.listening, l.entry < s.fs.fresh
  waiting : (s.listening.flatMap Listening.backlog).Nodup
  unaccepted : ∀ c ∈ s.listening.flatMap Listening.backlog,
    c < s.wires.length ∧ ∀ i, (i, c) ∉ h.accepted

/-- What an actor may do to the wires, and what the history says of it. -/
structure Traffic (i : Nat) (s : Sockets) (h : History) (s' : Sockets) (h' : History) : Prop where
  sound : s'.Sound h'
  gave : ∀ {k e}, h.Gave k e → h'.Gave k e
  others : ∀ {k e}, k ≠ i → h'.Gave k e → h.Gave k e
  carried : ∀ {k c}, k ≠ i → h.Gave k ⟨c, .client⟩ → (s'.wire c).carried = (s.wire c).carried
  grows : ∀ c, (s.wire c).carried <+: (s'.wire c).carried
  taken : ∀ {k c}, k ≠ i → h.Gave k ⟨c, .server⟩ → (s'.wire c).taken = (s.wire c).taken

namespace Traffic

variable {i k c : Nat} {s s' s'' : Sockets} {h h' h'' : History}

theorem trans (t : Traffic i s h s' h') (t' : Traffic i s' h' s'' h'') : Traffic i s h s'' h'' where
  sound := t'.sound
  gave g := t'.gave (t.gave g)
  others ne g := t.others ne (t'.others ne g)
  carried ne g := (t'.carried ne (t.gave g)).trans (t.carried ne g)
  grows c := (t.grows c).trans (t'.grows c)
  taken ne g := (t'.taken ne (t.gave g)).trans (t.taken ne g)

theorem opened_iff (t : Traffic i s h s' h') (ne : k ≠ i) :
    h'.openers[c]? = some k ↔ h.openers[c]? = some k :=
  ⟨t.others (e := ⟨c, .client⟩) ne, t.gave (e := ⟨c, .client⟩)⟩

theorem accepted_iff (t : Traffic i s h s' h') (ne : k ≠ i) :
    (k, c) ∈ h'.accepted ↔ (k, c) ∈ h.accepted :=
  ⟨t.others (e := ⟨c, .server⟩) ne, t.gave (e := ⟨c, .server⟩)⟩

end Traffic

/-- Nothing goes over any wire, and nobody new is listened for. -/
structure Sockets.Still (s s' : Sockets) : Prop where
  wires : s'.wires = s.wires
  listening : s'.listening.Sublist s.listening
  fresh : s.fs.fresh ≤ s'.fs.fresh

namespace Sockets

theorem Still.refl (s : Sockets) : s.Still s := ⟨rfl, List.Sublist.refl _, le_rfl⟩

theorem Still.trans {s s' s'' : Sockets} (h : s.Still s') (h' : s'.Still s'') : s.Still s'' :=
  ⟨h'.wires.trans h.wires, h'.listening.trans h.listening, h.fresh.trans h'.fresh⟩

theorem still_close (s : Sockets) (e : Endpoint) : s.Still (s.close e) :=
  ⟨s.close_wires e, List.Sublist.refl _, le_rfl⟩

theorem still_breakDown (s : Sockets) (e : Endpoint) : s.Still (s.breakDown e) :=
  ⟨s.breakDown_wires e, List.Sublist.refl _, le_rfl⟩

theorem still_shutdownWrite (s : Sockets) (e : Endpoint) : s.Still (s.shutdownWrite e) :=
  ⟨s.shutdownWrite_wires e, List.Sublist.refl _, le_rfl⟩

theorem still_unlisten (s : Sockets) (entry : Nat) : s.Still (s.unlisten entry) :=
  ⟨s.unlisten_wires entry, by simp, by simp⟩

theorem setBacklog_split {s : Sockets} (entries : (s.listening.map Listening.entry).Nodup)
    {l : Listening} (mem : l ∈ s.listening) : ∃ front back, s.listening = front ++ l :: back ∧
      ∀ backlog, (s.setBacklog l.entry backlog).listening = front ++ ⟨l.entry, backlog⟩ :: back := by
  obtain ⟨front, back, hl⟩ := List.append_of_mem mem
  refine ⟨front, back, hl, fun backlog => ?_⟩
  rw [hl, List.map_append, List.map_cons, List.nodup_append, List.nodup_cons] at entries
  obtain ⟨-, ⟨hback, -⟩, hfront⟩ := entries
  have same : ∀ ls : List Listening, (∀ l' ∈ ls, l'.entry ≠ l.entry) →
      (ls.map fun l' => if l'.entry = l.entry then ⟨l.entry, backlog⟩ else l') = ls := by
    intro ls hls
    conv_rhs => rw [← List.map_id ls]
    exact List.map_congr_left fun l' hl' => if_neg (hls l' hl')
  have hf := same front fun l' hl' => hfront _ (List.mem_map_of_mem hl') _ (List.mem_cons_self ..)
  have hb := same back fun l' hl' heq => hback (heq ▸ List.mem_map_of_mem hl')
  simp [setBacklog, hl, hf, hb]

namespace Sound

variable {s s' : Sockets} {h : History}

theorem still (sound : s.Sound h) (still : s.Still s') (i : Nat) : Traffic i s h s' h where
  sound :=
    { openers := by rw [still.wires, sound.openers]
      made := fun hc => by rw [still.wires]; exact sound.made hc
      acceptor := sound.acceptor
      taken := fun c => by rw [wire_of_wires still.wires]; exact sound.taken c
      untaken := fun hc => by rw [wire_of_wires still.wires]; exact sound.untaken hc
      entries := sound.entries.sublist (still.listening.map _)
      fresh := fun l hl => (sound.fresh l (still.listening.subset hl)).trans_le still.fresh
      waiting := sound.waiting.sublist (still.listening.flatMap _)
      unaccepted := fun c hc => by
        rw [still.wires]
        exact sound.unaccepted c ((still.listening.flatMap _).subset hc) }
  gave g := g
  others _ g := g
  carried _ _ := by rw [wire_of_wires still.wires]
  grows c := by rw [wire_of_wires still.wires]
  taken _ _ := by rw [wire_of_wires still.wires]

theorem listens (sound : s.Sound h) (wires : s'.wires = s.wires)
    (listening : s'.listening = s.listening ++ [⟨s.fs.fresh, []⟩])
    (fresh : s'.fs.fresh = s.fs.fresh + 1) (i : Nat) : Traffic i s h s' h where
  sound :=
    { openers := by rw [wires, sound.openers]
      made := fun hc => by rw [wires]; exact sound.made hc
      acceptor := sound.acceptor
      taken := fun c => by rw [wire_of_wires wires]; exact sound.taken c
      untaken := fun hc => by rw [wire_of_wires wires]; exact sound.untaken hc
      entries := by
        rw [listening, List.map_append]
        refine List.Nodup.append sound.entries (List.nodup_singleton _) ?_
        simp only [List.map_cons, List.map_nil, List.disjoint_singleton, List.mem_map, not_exists,
          not_and]
        exact fun l hl => (sound.fresh l hl).ne
      fresh := fun l hl => by
        rw [listening] at hl
        rw [fresh]
        obtain hl | hl := List.mem_append.mp hl
        · exact Nat.lt_succ_of_lt (sound.fresh l hl)
        · obtain rfl := List.mem_singleton.mp hl
          exact Nat.lt_succ_self _
      waiting := by simpa [listening] using sound.waiting
      unaccepted := by simpa [listening, wires] using sound.unaccepted }
  gave g := g
  others _ g := g
  carried _ _ := by rw [wire_of_wires wires]
  grows c := by rw [wire_of_wires wires]
  taken _ _ := by rw [wire_of_wires wires]

/-- The length of the wires, and who waits where, do not depend on what goes over them. -/
theorem of_wires (sound : s.Sound h) (length : s'.wires.length = s.wires.length)
    (taken : ∀ c, (s'.wire c).taken ≤ (s'.wire c).carried.length)
    (untaken : ∀ c, (∀ i, (i, c) ∉ h.accepted) → (s'.wire c).taken = (s.wire c).taken)
    (listening : s'.listening = s.listening) (fs : s'.fs = s.fs) : s'.Sound h where
  openers := by rw [length, sound.openers]
  made hc := by rw [length]; exact sound.made hc
  acceptor := sound.acceptor
  taken := taken
  untaken hc := (untaken _ hc).trans (sound.untaken hc)
  entries := listening ▸ sound.entries
  fresh := by rw [listening, fs]; exact sound.fresh
  waiting := listening ▸ sound.waiting
  unaccepted := by rw [listening, length]; exact sound.unaccepted

theorem writes (sound : s.Sound h) {i : Nat} {e : Endpoint} (gave : h.Gave i e) {data : Bytes}
    {grain count : Nat} (wrote : s.write e data grain = (.wrote count, s')) :
    Traffic i s h s' h := by
  obtain ⟨listening, inside, wires⟩ := write_eq_wrote wrote
  have same := s.sameFiles_write e data grain
  rw [wrote] at same
  obtain ⟨c, side⟩ := e
  cases side with
  | server =>
    refine sound.still ⟨wires, ?_, ?_⟩ i
    · rw [listening]
    · rw [same.fs]
  | client =>
    have self := wire_of_modify_self wires inside
    have other : ∀ {d}, d ≠ c → s'.wire d = s.wire d := fun ne => wire_of_modify wires ne
    have grows : ∀ d, (s.wire d).carried <+: (s'.wire d).carried ∧
        (s'.wire d).taken = (s.wire d).taken := by
      intro d
      by_cases hd : d = c
      · subst hd
        rw [self]
        exact ⟨List.prefix_append _ _, rfl⟩
      · rw [other hd]
        exact ⟨List.prefix_rfl, rfl⟩
    refine ⟨sound.of_wires (by rw [wires, List.length_modify]) (fun d => ?_) (fun d _ => (grows d).2)
      listening same.fs, id, fun _ => id, fun {k d} ne g => ?_, fun d => (grows d).1,
      fun _ _ => (grows _).2⟩
    · rw [(grows d).2]
      exact (sound.taken d).trans (grows d).1.length_le
    · rw [other]
      rintro rfl
      exact ne (History.client_unique gave g)

theorem reads (sound : s.Sound h) {i : Nat} {e : Endpoint} (gave : h.Gave i e) {grain : Nat}
    {outcome : ReadOutcome} (took : s.read e grain = (outcome, s')) : Traffic i s h s' h := by
  obtain ⟨listening, wires⟩ := read_wires took
  have same := s.sameFiles_read e grain
  rw [took] at same
  obtain ⟨c, side⟩ := e
  cases side with
  | client =>
    refine sound.still ⟨wires, ?_, ?_⟩ i
    · rw [listening]
    · rw [same.fs]
  | server =>
    obtain ⟨wires, inside⟩ := wires
    have self := wire_of_modify_self wires (sound.made gave)
    have other : ∀ {d}, d ≠ c → s'.wire d = s.wire d := fun ne => wire_of_modify wires ne
    have same_carried : ∀ d, (s'.wire d).carried = (s.wire d).carried := by
      intro d
      by_cases hd : d = c
      · subst hd
        rw [self]
        rfl
      · rw [other hd]
    refine ⟨sound.of_wires (by rw [wires, List.length_modify]) (fun d => ?_) (fun d hd => ?_)
      listening same.fs, id, fun _ => id, fun _ _ => same_carried _, fun d => by rw [same_carried],
      fun {k d} ne g => ?_⟩
    · by_cases hd : d = c
      · subst hd
        have := inside.length_le
        have := sound.taken d
        simp only [List.length_drop] at *
        rw [self]
        simp only [Wire.take]
        omega
      · rw [other hd]
        exact sound.taken d
    · rw [other]
      rintro rfl
      exact hd i gave
    · rw [other]
      rintro rfl
      exact ne (sound.acceptor g gave)

theorem backlog_changed (sound : s.Sound h) {l : Listening} (mem : l ∈ s.listening)
    {backlog : List Nat} (listening : s'.listening = (s.setBacklog l.entry backlog).listening)
    (fs : s'.fs = s.fs) :
    (s'.listening.map Listening.entry).Nodup ∧ (∀ l' ∈ s'.listening, l'.entry < s'.fs.fresh) ∧
      ∃ front back, s.listening.flatMap Listening.backlog = front ++ (l.backlog ++ back) ∧
        s'.listening.flatMap Listening.backlog = front ++ (backlog ++ back) := by
  obtain ⟨front, back, hl, hset⟩ := setBacklog_split sound.entries mem
  rw [hset] at listening
  have entries : s'.listening.map Listening.entry = s.listening.map Listening.entry := by
    simp [listening, hl]
  refine ⟨entries ▸ sound.entries, fun l' hl' => ?_, front.flatMap Listening.backlog,
    back.flatMap Listening.backlog, by simp [hl], by simp [listening]⟩
  have hentry : l'.entry ∈ s.listening.map Listening.entry := entries ▸ List.mem_map_of_mem hl'
  obtain ⟨l₀, hl₀, heq⟩ := List.mem_map.mp hentry
  rw [← heq, fs]
  exact sound.fresh l₀ hl₀

theorem connects (sound : s.Sound h) (i : Nat) {path : String} {e : Endpoint}
    (connected : s.connect path = (.ok e, s')) :
    e = ⟨s.wires.length, .client⟩ ∧ s'.wire s.wires.length = .new ∧
      Traffic i s h s' (h.opens i) := by
  obtain ⟨rfl, wires, l, mem, listening⟩ := connect_eq_ok connected
  have same := s.sameFiles_connect path
  rw [connected] at same
  have length : s'.wires.length = s.wires.length + 1 := by simp [wires]
  have wire : ∀ c, s'.wire c = s.wire c := wire_of_new wires
  have fresh : s'.wire s.wires.length = .new := by
    rw [wire, Sockets.wire, List.getElem?_eq_none le_rfl]
    rfl
  obtain ⟨entries, below, front, back, waiting, waiting'⟩ :=
    sound.backlog_changed mem listening same.fs
  have joined : (s'.listening.flatMap Listening.backlog).Perm
      (s.wires.length :: s.listening.flatMap Listening.backlog) := by
    rw [waiting, waiting', ← List.append_assoc, ← List.append_assoc, List.append_assoc front]
    simpa using @List.perm_middle _ s.wires.length (front ++ l.backlog) back
  have sound' : s'.Sound (h.opens i) :=
    { openers := by simp [History.opens, sound.openers, length]
      made := fun hc => (sound.made hc).trans (by omega)
      acceptor := sound.acceptor
      taken := fun c => by rw [wire]; exact sound.taken c
      untaken := fun hc => by rw [wire]; exact sound.untaken hc
      entries := entries
      fresh := below
      waiting := by
        rw [joined.nodup_iff, List.nodup_cons]
        exact ⟨fun hmem => absurd (sound.unaccepted _ hmem).1 (lt_irrefl _), sound.waiting⟩
      unaccepted := fun c hc => by
        rw [length]
        obtain rfl | hc := List.mem_cons.mp (joined.subset hc)
        · exact ⟨Nat.lt_succ_self _, fun k hk => absurd (sound.made hk) (lt_irrefl _)⟩
        · exact ⟨Nat.lt_succ_of_lt (sound.unaccepted c hc).1, (sound.unaccepted c hc).2⟩ }
  refine ⟨rfl, fresh, sound', fun g => History.gave_opens.mpr (.inl g), fun ne g => ?_, ?_, ?_, ?_⟩
  · exact (History.gave_opens.mp g).resolve_right fun new => ne new.2
  · exact fun _ _ => by rw [wire]
  · exact fun c => by rw [wire]
  · exact fun _ _ => by rw [wire]

theorem accepts (sound : s.Sound h) (i : Nat) {entry : Nat} {e : Endpoint}
    (accepted : s.accept entry = some (e, s')) :
    e.side = .server ∧ (∀ k, ¬h.Gave k e) ∧ (s'.wire e.connection).taken = 0 ∧
      Traffic i s h s' (h.accepts i e.connection) := by
  have same := sameFiles_accept accepted
  unfold accept at accepted
  split at accepted
  next entry' id rest hl =>
    cases accepted
    obtain ⟨mem, rfl⟩ := mem_of_listener? hl
    obtain ⟨entries, below, front, back, waiting, waiting'⟩ :=
      sound.backlog_changed mem rfl same.fs
    have joined : (s.listening.flatMap Listening.backlog).Perm
        (id :: (s.setBacklog entry' rest).listening.flatMap Listening.backlog) := by
      rw [waiting, waiting']
      exact List.perm_middle
    obtain ⟨made, unknown⟩ := sound.unaccepted id (joined.symm.subset (List.mem_cons_self ..))
    obtain ⟨gone, nodup⟩ := List.nodup_cons.mp (joined.nodup_iff.mp sound.waiting)
    have sound' : (s.setBacklog entry' rest).Sound (h.accepts i id) :=
      { openers := sound.openers
        made := fun hc => by
          obtain old | ⟨rfl, -⟩ := History.mem_accepts.mp hc
          · exact sound.made old
          · exact made
        acceptor := fun hj hk => by
          obtain old | ⟨rfl, rfl⟩ := History.mem_accepts.mp hj
          · obtain old' | ⟨rfl, -⟩ := History.mem_accepts.mp hk
            · exact sound.acceptor old old'
            · exact absurd old (unknown _)
          · obtain old' | ⟨-, rfl⟩ := History.mem_accepts.mp hk
            · exact absurd old' (unknown _)
            · rfl
        taken := sound.taken
        untaken := fun hc => sound.untaken fun k hk => hc k (History.mem_accepts.mpr (.inl hk))
        entries := entries
        fresh := below
        waiting := nodup
        unaccepted := fun c hc => by
          have old := joined.symm.subset (List.mem_cons_of_mem _ hc)
          obtain ⟨made', unknown'⟩ := sound.unaccepted c old
          refine ⟨made', fun k hk => ?_⟩
          obtain old | ⟨rfl, -⟩ := History.mem_accepts.mp hk
          · exact unknown' k old
          · exact gone hc }
    refine ⟨rfl, unknown, sound.untaken unknown, sound', fun g => History.gave_accepts.mpr (.inl g),
      fun ne g => ?_, fun _ _ => rfl, fun _ => List.prefix_rfl, fun _ _ => rfl⟩
    exact (History.gave_accepts.mp g).resolve_right fun new => ne new.2
  next => cases accepted

end Sound

end Sockets

end EvidenceExchange
