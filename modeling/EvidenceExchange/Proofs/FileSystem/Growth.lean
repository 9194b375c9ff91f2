import EvidenceExchange.Proofs.FileSystem.Opening

namespace EvidenceExchange

namespace FileSystem

/-- Entries may have been added to a tree, and nothing else has changed. -/
structure Grows (fs fs' : FileSystem) : Prop where
  wellFormed : fs'.WellFormed
  fresh_le : fs.fresh ≤ fs'.fresh
  added : ∃ more, fs'.entries = fs.entries ++ more ∧
    ∀ e ∈ more, fs.fresh ≤ e.id ∧ fs.find? e.parent e.name = none

namespace Grows

variable {fs fs' fs'' : FileSystem}

theorem refl (wf : fs.WellFormed) : fs.Grows fs :=
  ⟨wf, le_rfl, [], (List.append_nil _).symm, by simp⟩

theorem of_eq (wf : fs.WellFormed) (same : fs' = fs) : fs.Grows fs' := by
  rw [same]
  exact refl wf

theorem trans (h : fs.Grows fs') (h' : fs'.Grows fs'') : fs.Grows fs'' := by
  obtain ⟨more, entries, new⟩ := h.added
  obtain ⟨more', entries', new'⟩ := h'.added
  refine ⟨h'.wellFormed, h.fresh_le.trans h'.fresh_le, more ++ more', ?_, fun e mem => ?_⟩
  · rw [entries', entries, List.append_assoc]
  · obtain mem | mem := List.mem_append.mp mem
    · exact new e mem
    · obtain ⟨le, free⟩ := new' e mem
      rw [find?, entries, List.find?_append, Option.or_eq_none_iff] at free
      exact ⟨h.fresh_le.trans le, free.1⟩

theorem skip (wf : fs.WellFormed) : fs.Grows { fs with fresh := fs.fresh + 1 } :=
  ⟨(Onward.skip fs).wellFormed wf, Nat.le_succ _, [], (List.append_nil _).symm, by simp⟩

theorem create (wf : fs.WellFormed) {directory : Nat} (inside : directory < fs.fresh) {name : String}
    (free : fs.find? directory name = none) (node : Node) :
    fs.Grows (fs.create directory name node) := by
  refine ⟨wf.create inside name node, Nat.le_succ _, [_], rfl, fun e mem => ?_⟩
  obtain rfl := List.mem_singleton.mp mem
  exact ⟨le_rfl, free⟩

theorem find? (h : fs.Grows fs') {directory : Nat} {name : String} {e : Entry}
    (here : fs.find? directory name = some e) : fs'.find? directory name = some e := by
  obtain ⟨more, entries, -⟩ := h.added
  rw [FileSystem.find?] at here
  rw [FileSystem.find?, entries, List.find?_append, here]
  rfl

theorem above (h : fs.Grows fs') {directory : Nat} (old : directory < fs.fresh) :
    fs'.above directory = fs.above directory := by
  obtain ⟨more, entries, new⟩ := h.added
  have none : more.find? (·.id == directory) = none := by
    refine List.find?_eq_none.mpr fun e mem => ?_
    have := (new e mem).1
    simp only [beq_iff_eq]
    omega
  rw [FileSystem.above, FileSystem.above, byId?, byId?, entries, List.find?_append, none, Option.or_none]

theorem keeps (h : fs.Grows fs') (wf : fs.WellFormed) : fs.Keeps fs' fun _ => True where
  find _ here _ := h.find? here
  above rooted := h.above (rooted.lt_fresh wf)
  inner _ := trivial
  link _ := trivial

theorem standing (h : fs.Grows fs') {p : Spot} (taken : fs.standing p ≠ []) :
    fs'.standing p = fs.standing p := by
  obtain ⟨more, entries, new⟩ := h.added
  have none : (more.filter fun e => e.parent == p.directory && e.name == p.name) = [] := by
    refine List.filter_eq_nil_iff.mpr fun e mem here => taken (standing_eq_nil_iff.mpr ?_)
    simp only [Bool.and_eq_true, beq_iff_eq] at here
    rw [occupant?, ← here.1, ← here.2]
    exact (new e mem).2
  rw [FileSystem.standing, entries, List.filter_append, none, List.append_nil]
  rfl

theorem openFile (wf : fs.WellFormed) {path : String} {id : Nat}
    (h : fs.openFile path = .ok (id, fs')) : fs.Grows fs' := by
  obtain ⟨directory, name, vacant, -, rfl⟩ | rfl := openFile_cases h
  · obtain ⟨-, leads⟩ := resolve_eq_ok_iff.mp vacant
    have inside := (leads.rooted wf .root (.inr ⟨name, rfl⟩)).lt_fresh wf
    exact create wf inside leads.missing .file
  · exact refl wf

theorem place (wf : fs.WellFormed) {path : String} {node : Node} {id : Nat}
    (h : fs.place path node = .ok (id, fs')) : fs.Grows fs' := by
  obtain ⟨p, spot, free, -, -, rfl⟩ := place_eq_ok_iff.mp h
  exact create wf (lt_fresh_of_spot? wf spot) free node

theorem bindEntry (wf : fs.WellFormed) {path : String} {id : Nat}
    (h : Sockets.bindEntry fs path = .ok (id, fs')) : fs.Grows fs' := by
  obtain ⟨-, rfl, -⟩ | placed := bindEntry_eq_ok h
  · exact skip wf
  · exact place wf placed

theorem link (wf : fs.WellFormed) {path target : String} (h : fs.link path target = .ok fs') :
    fs.Grows fs' := by
  obtain ⟨_, _, h⟩ := Except.bind_eq_ok_iff.mp h
  obtain ⟨⟨id, made⟩, placed, h⟩ := Except.bind_eq_ok_iff.mp h
  cases h
  exact place wf placed

theorem makeDirectory (wf : fs.WellFormed) {way : List String} (h : fs.makeDirectory way = .ok fs') :
    fs.Grows fs' := by
  unfold FileSystem.makeDirectory at h
  split at h
  next => cases h
  next => cases h
  next p spot =>
    obtain ⟨free, h⟩ := Except.ite_eq_ok_iff.mp h
    cases h
    have vacant : fs.occupant? p = none := by simpa using free
    exact create wf (lt_fresh_of_spotOf? wf spot) vacant .directory

theorem makeOrKeep (wf : fs.WellFormed) (way : List String) : fs.Grows (fs.makeOrKeep way).2 := by
  unfold FileSystem.makeOrKeep
  split
  next made => exact makeDirectory wf made
  next => exact refl wf

theorem makeWithin (wf : fs.WellFormed) (way : List String) (further : List (List String)) :
    fs.Grows (fs.makeWithin way further).2 := by
  induction further generalizing way with
  | nil => exact makeOrKeep wf way
  | cons outer further ih =>
    rw [FileSystem.makeWithin]
    split
    next made => exact makeDirectory wf made
    next =>
      split
      next =>
        have within := ih outer
        split
        next made =>
          rw [made] at within
          exact within.trans (makeOrKeep within.wellFormed way)
        next failed =>
          rw [failed] at within
          exact within
      next => exact refl wf

theorem makeDirectories (wf : fs.WellFormed) (path : String) :
    fs.Grows (fs.makeDirectories path).2 := by
  unfold FileSystem.makeDirectories
  split
  next => exact refl wf
  next =>
    split
    next => exact refl wf
    next => exact makeWithin wf _ _

theorem attempt {ε : Type} {x : Except ε FileSystem} (wf : fs.WellFormed)
    (h : ∀ fs', x = .ok fs' → fs.Grows fs') : fs.Grows (fs.attempt x).2 := by
  cases x with
  | ok fs' => exact h fs' rfl
  | error _ => exact refl wf

end Grows

end FileSystem

/-- Neither removes anything nor puts something in the place of another thing. -/
def FileStep.Adds : FileStep → Prop
  | remove _ | rename _ _ => False
  | _ => True

theorem FileStep.Adds.grows {step : FileStep} (adds : step.Adds) {fs : FileSystem}
    (wf : fs.WellFormed) : fs.Grows (step.apply fs).2 := by
  cases step with
  | makeFile path =>
    refine .attempt wf fun fs' h => ?_
    obtain ⟨id, h⟩ := FileSystem.exists_of_map_snd h
    exact .openFile wf h
  | makeDirectories path => exact .makeDirectories wf path
  | link path target => exact .attempt wf fun fs' h => .link wf h
  | staleSocket path =>
    refine .attempt wf fun fs' h => ?_
    obtain ⟨id, h⟩ := FileSystem.exists_of_map_snd h
    exact .bindEntry wf h
  | remove | rename => exact adds.elim

end EvidenceExchange
