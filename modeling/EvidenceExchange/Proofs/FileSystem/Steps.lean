import EvidenceExchange.FileStep
import EvidenceExchange.Proofs.FileSystem.Paths

namespace EvidenceExchange.FileSystem

theorem lt_fresh_of_spotOf? {fs : FileSystem} (wf : fs.WellFormed) {way : List String} {p : Spot}
    (h : fs.spotOf? way = .ok (some p)) : p.directory < fs.fresh := by
  unfold spotOf? at h
  split at h
  next => cases h
  next name _ =>
    split at h
    next => cases h
    next directory hd =>
      split at h
      next => cases h
      next =>
        obtain ⟨_, h⟩ := Except.ite_eq_ok_iff.mp h
        obtain rfl := Option.some.inj (Except.ok.inj h)
        exact ((leads_of_walk hd).rooted wf .root (.inl rfl)).lt_fresh wf
    next => cases h

theorem lt_fresh_of_spot? {fs : FileSystem} (wf : fs.WellFormed) {path : String} {p : Spot}
    (h : fs.spot? path = .ok (some p)) : p.directory < fs.fresh := by
  obtain ⟨_, _, hp⟩ := Except.bind_eq_ok_iff.mp h
  exact lt_fresh_of_spotOf? wf hp

/-- What any change of a tree comes to. -/
structure Onward (fs fs' : FileSystem) : Prop where
  wellFormed : fs.WellFormed → fs'.WellFormed
  fresh_le : fs.fresh ≤ fs'.fresh
  /-- What was not there before has a new number. -/
  origin : ∀ e' ∈ fs'.entries, fs.fresh ≤ e'.id ∨ ∃ e ∈ fs.entries, e.id = e'.id

namespace Onward

variable {fs fs' fs'' : FileSystem}

theorem refl (fs : FileSystem) : fs.Onward fs := ⟨id, le_rfl, fun e he => .inr ⟨e, he, rfl⟩⟩

theorem trans (h : fs.Onward fs') (h' : fs'.Onward fs'') : fs.Onward fs'' where
  wellFormed wf := h'.wellFormed (h.wellFormed wf)
  fresh_le := h.fresh_le.trans h'.fresh_le
  origin e'' he'' := by
    obtain le | ⟨e', he', same⟩ := h'.origin e'' he''
    · exact .inl (h.fresh_le.trans le)
    · exact same ▸ h.origin e' he'

theorem skip (fs : FileSystem) : fs.Onward { fs with fresh := fs.fresh + 1 } where
  wellFormed wf :=
    { nodup := wf.nodup
      pos := wf.pos
      lt := fun e he => Nat.lt_succ_of_lt (wf.lt e he)
      parent_lt := fun e he => Nat.lt_succ_of_lt (wf.parent_lt e he)
      fresh_pos := Nat.lt_succ_of_lt wf.fresh_pos }
  fresh_le := Nat.le_succ _
  origin e he := .inr ⟨e, he, rfl⟩

theorem create {directory : Nat} (h : fs.WellFormed → directory < fs.fresh) (name : String)
    (node : Node) : fs.Onward (fs.create directory name node) where
  wellFormed wf := wf.create (h wf) name node
  fresh_le := Nat.le_succ _
  origin e he := by
    obtain he | he := List.mem_append.mp he
    · exact .inr ⟨e, he, rfl⟩
    · obtain rfl := List.mem_singleton.mp he
      exact .inl le_rfl

theorem filter (fs : FileSystem) (p : Entry → Bool) :
    fs.Onward { fs with entries := fs.entries.filter p } :=
  ⟨fun wf => wf.filter p, le_rfl, fun e he => .inr ⟨e, List.mem_of_mem_filter he, rfl⟩⟩

theorem erase (fs : FileSystem) (id : Nat) : fs.Onward (fs.erase id) := .filter fs _

theorem clear (fs : FileSystem) (directory : Nat) : fs.Onward (fs.clear directory) := .filter fs _

theorem relocated_id (id parent : Nat) (name : String) (x : Entry) :
    (if x.id = id then { x with parent := parent, name := name } else x).id = x.id := by
  split <;> rfl

/-- An entry may go to any directory and name, since it keeps its number. -/
theorem relocate (id : Nat) {parent : Nat} (h : fs.WellFormed → parent < fs.fresh) (name : String) :
    fs.Onward { fs with entries := fs.entries.map fun x =>
      if x.id = id then { x with parent := parent, name := name } else x } := by
  refine ⟨fun wf => ⟨?_, ?_, ?_, ?_, wf.fresh_pos⟩, le_rfl, fun e he => ?_⟩
  · have hids : (Entry.id ∘ fun x : Entry =>
        if x.id = id then { x with parent := parent, name := name } else x) = Entry.id :=
      funext (relocated_id id parent name)
    simpa only [List.map_map, hids] using wf.nodup
  · intro e he
    obtain ⟨x, hx, rfl⟩ := List.mem_map.mp he
    rw [relocated_id]
    exact wf.pos x hx
  · intro e he
    obtain ⟨x, hx, rfl⟩ := List.mem_map.mp he
    rw [relocated_id]
    exact wf.lt x hx
  · intro e he
    obtain ⟨x, hx, rfl⟩ := List.mem_map.mp he
    split
    next => exact h wf
    next => exact wf.parent_lt x hx
  · obtain ⟨x, hx, rfl⟩ := List.mem_map.mp he
    exact .inr ⟨x, hx, (relocated_id id parent name x).symm⟩

theorem openFile {path : String} {id : Nat} (h : fs.openFile path = .ok (id, fs')) :
    fs.Onward fs' := by
  obtain ⟨directory, name, hr, -, rfl⟩ | rfl := openFile_cases h
  · refine create (fun wf => ?_) name .file
    obtain ⟨-, hl⟩ := resolve_eq_ok_iff.mp hr
    exact (hl.rooted wf .root (.inr ⟨name, rfl⟩)).lt_fresh wf
  · exact refl _

theorem place {path : String} {node : Node} {id : Nat} (h : fs.place path node = .ok (id, fs')) :
    fs.Onward fs' ∧ id = fs.fresh ∧ fs'.fresh = fs.fresh + 1 := by
  obtain ⟨p, hp, -, -, rfl, rfl⟩ := place_eq_ok_iff.mp h
  exact ⟨create (fun wf => lt_fresh_of_spot? wf hp) _ _, rfl, rfl⟩

theorem unlink {path : String} (h : fs.unlink path = .ok fs') : fs.Onward fs' := by
  unfold FileSystem.unlink at h
  split at h
  next => cases h
  next => cases h
  next =>
    split at h
    next => cases h
    next e _ =>
      obtain ⟨_, h⟩ := Except.ite_eq_ok_iff.mp h
      obtain ⟨_, h⟩ := Except.ite_eq_ok_iff.mp h
      cases h
      exact erase fs e.id

theorem removeDirectory {path : String} (h : fs.removeDirectory path = .ok fs') :
    fs.Onward fs' := by
  unfold FileSystem.removeDirectory at h
  split at h
  next => cases h
  next => cases h
  next =>
    split at h
    next => cases h
    next e _ =>
      obtain ⟨_, h⟩ := Except.ite_eq_ok_iff.mp h
      obtain ⟨_, h⟩ := Except.ite_eq_ok_iff.mp h
      cases h
      exact erase fs e.id

theorem removeTree (fs : FileSystem) (directory : Nat) (path : String) :
    fs.Onward (fs.removeTree directory path).2 := by
  simp only [FileSystem.removeTree]
  split
  next h => exact (clear fs directory).trans (removeDirectory h)
  next => exact clear fs directory

theorem removeAll (fs : FileSystem) (path : String) : fs.Onward (fs.removeAll path).2 := by
  unfold FileSystem.removeAll
  split
  next => exact removeTree _ _ _
  next =>
    split
    next => exact removeTree _ _ _
    next =>
      split
      next h => exact unlink h
      next => exact refl fs
  next => exact refl fs

theorem link {path target : String} (h : fs.link path target = .ok fs') : fs.Onward fs' := by
  obtain ⟨_, _, h⟩ := Except.bind_eq_ok_iff.mp h
  obtain ⟨⟨id, made⟩, hplace, h⟩ := Except.bind_eq_ok_iff.mp h
  cases h
  exact (place hplace).1

theorem makeDirectory {way : List String} (h : fs.makeDirectory way = .ok fs') :
    fs.Onward fs' := by
  unfold FileSystem.makeDirectory at h
  split at h
  next => cases h
  next => cases h
  next p hp =>
    obtain ⟨_, h⟩ := Except.ite_eq_ok_iff.mp h
    cases h
    exact create (fun wf => lt_fresh_of_spotOf? wf hp) _ _

theorem makeOrKeep (fs : FileSystem) (way : List String) : fs.Onward (fs.makeOrKeep way).2 := by
  unfold FileSystem.makeOrKeep
  split
  next h => exact makeDirectory h
  next => exact refl fs

theorem makeWithin (fs : FileSystem) (way : List String) (further : List (List String)) :
    fs.Onward (fs.makeWithin way further).2 := by
  induction further generalizing way with
  | nil => exact makeOrKeep fs way
  | cons outer further ih =>
    rw [FileSystem.makeWithin]
    split
    next h => exact makeDirectory h
    next =>
      split
      next =>
        have within := ih outer
        split
        next h =>
          rw [h] at within
          exact within.trans (makeOrKeep _ way)
        next h =>
          rw [h] at within
          exact within
      next => exact refl fs

theorem makeDirectories (fs : FileSystem) (path : String) :
    fs.Onward (fs.makeDirectories path).2 := by
  unfold FileSystem.makeDirectories
  split
  next => exact refl fs
  next =>
    split
    next => exact refl fs
    next => exact makeWithin fs _ _

theorem rename? {path target : String} (h : fs.rename? path target = some fs') :
    fs.Onward fs' := by
  simp only [FileSystem.rename?, Option.bind_eq_bind, Option.bind_eq_some_iff] at h
  obtain ⟨source, -, destination, hd, e, -, h⟩ := h
  have inside : fs.WellFormed → destination.directory < fs.fresh := by
    intro wf
    cases hs : fs.spot? target with
    | error _ => simp [hs, Except.toOption] at hd
    | ok p =>
      have hp : p = some destination := by simpa [hs, Except.toOption] using hd
      exact lt_fresh_of_spot? wf (hp ▸ hs)
  split at h
  next => cases h
  next =>
    split at h
    next =>
      split at h
      next => cases h
      next =>
        cases h
        exact relocate e.id inside _
    next old _ =>
      split at h
      next =>
        cases h
        exact refl fs
      next =>
        split at h
        next => cases h
        next =>
          split at h
          next => cases h
          next =>
            split at h
            next => cases h
            next =>
              cases h
              -- The directory is known to be in the tree before the old entry goes, not after.
              refine ⟨fun wf => ?_, le_rfl, fun x hx => ?_⟩
              · have moved := @relocate (fs.erase old.id) e.id _ (fun _ => inside wf) destination.name
                exact moved.wellFormed (wf.erase old.id)
              · obtain ⟨y, hy, rfl⟩ := List.mem_map.mp hx
                exact .inr ⟨y, List.mem_of_mem_filter hy, (relocated_id ..).symm⟩

end Onward

theorem bindEntry_eq_ok {fs fs' : FileSystem} {path : String} {id : Nat}
    (h : Sockets.bindEntry fs path = .ok (id, fs')) :
    id = fs.fresh ∧ fs' = { fs with fresh := fs.fresh + 1 } ∧ path = "" ∨
      fs.place path .socket = .ok (id, fs') := by
  obtain ⟨_, _, h⟩ := Except.bind_eq_ok_iff.mp h
  split at h
  next hempty =>
    obtain ⟨rfl, rfl⟩ := Prod.mk.inj (Except.ok.inj h)
    exact .inl ⟨rfl, rfl, by simpa using hempty⟩
  next =>
    split at h
    next bound hplace =>
      cases h
      exact .inr hplace
    next => cases h

theorem Onward.bindEntry {fs fs' : FileSystem} {path : String} {id : Nat}
    (h : Sockets.bindEntry fs path = .ok (id, fs')) :
    fs.Onward fs' ∧ id = fs.fresh ∧ fs'.fresh = fs.fresh + 1 := by
  obtain ⟨rfl, rfl, -⟩ | hplace := bindEntry_eq_ok h
  · exact ⟨.skip fs, rfl, rfl⟩
  · exact Onward.place hplace

theorem keeps_bindEntry {fs fs' : FileSystem} (wf : fs.WellFormed) {path : String} {id : Nat}
    (h : Sockets.bindEntry fs path = .ok (id, fs')) : fs.Keeps fs' fun _ => True := by
  obtain ⟨-, rfl, -⟩ | hplace := bindEntry_eq_ok h
  · exact ⟨fun _ h _ => h, fun _ => rfl, fun _ => trivial, fun _ => trivial⟩
  · exact (place_eq_ok wf hplace).2.1

theorem Onward.call (fs : FileSystem) (call : FileCall) : fs.Onward (call.apply fs) := by
  cases call with
  | openFile path =>
    simp only [FileCall.apply]
    split
    next opened => exact .openFile opened
    next => exact .refl fs
  | unlink path =>
    simp only [FileCall.apply]
    split
    next removed => exact .unlink removed
    next => exact .refl fs

theorem keeps_openFile_call {fs : FileSystem} (wf : fs.WellFormed) (path : String) :
    fs.Keeps ((FileCall.openFile path).apply fs) fun _ => True := by
  simp only [FileCall.apply]
  split
  next opened => exact (openFile_eq_ok wf opened).2.1
  next => exact .refl fs

theorem Onward.attempt {fs : FileSystem} {ε : Type} {x : Except ε FileSystem}
    (h : ∀ fs', x = .ok fs' → fs.Onward fs') : fs.Onward (fs.attempt x).2 := by
  cases x with
  | ok fs' => exact h fs' rfl
  | error _ => exact .refl fs

theorem exists_of_map_snd {x : Except IoError (Nat × FileSystem)} {fs : FileSystem}
    (h : x.map Prod.snd = .ok fs) : ∃ id, x = .ok (id, fs) := by
  obtain _ | ⟨id, made⟩ := x <;> cases h
  exact ⟨id, rfl⟩

theorem Onward.apply (fs : FileSystem) (step : FileStep) : fs.Onward (step.apply fs).2 := by
  cases step with
  | makeFile path =>
    refine .attempt fun fs' h => ?_
    obtain ⟨id, h⟩ := exists_of_map_snd h
    exact .openFile h
  | makeDirectories path => exact .makeDirectories fs path
  | link path target => exact .attempt fun fs' h => .link h
  | staleSocket path =>
    refine .attempt fun fs' h => ?_
    obtain ⟨id, h⟩ := exists_of_map_snd h
    exact (Onward.bindEntry h).1
  | remove path => exact .removeAll fs path
  | rename path target =>
    simp only [FileStep.apply]
    split
    next h => exact .rename? h
    next => exact .refl fs

end EvidenceExchange.FileSystem
