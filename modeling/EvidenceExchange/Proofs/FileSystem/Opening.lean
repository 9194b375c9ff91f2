import EvidenceExchange.Proofs.FileSystem.Standing

namespace EvidenceExchange.FileSystem

open Transport (lockPath)

variable {fs fs' : FileSystem} {path name : String} {e : Entry} {place : Place}

/-- A last name leads to what has it, or to a place where nothing has it yet. -/
theorem Leads.named {left inner : Nat} (h : Leads fs .named left inner [name] place)
    (proper : Proper name) :
    (∃ e, place = .entry e ∧ fs.find? inner name = some e) ∨
      place = .vacant inner name ∧ fs.find? inner name = none := by
  cases h with
  | stay dot _ => exact absurd dot proper.1
  | up _ => exact absurd rfl proper.2.1
  | vacant _ missing => exact .inr ⟨rfl, missing⟩
  | found _ here _ => exact .inl ⟨_, rfl, here⟩
  | enter _ _ _ more => exact absurd rfl more
  | follow _ _ _ passes => exact absurd ⟨rfl, rfl⟩ passes

theorem Leads.missing {aim : Aim} {links directory inner : Nat} {way : List String}
    (h : Leads fs aim links directory way (.vacant inner name)) : fs.find? inner name = none := by
  generalize hp : Place.vacant inner name = place at h
  induction h with
  | finish | found => cases hp
  | stay _ _ ih | up _ ih | enter _ _ _ _ _ _ ih | follow _ _ _ _ _ _ _ ih => exact ih hp
  | vacant _ missing =>
    cases hp
    exact missing

/-- Something is at a path: what has its last name, or a directory that it ends in without naming it. -/
def Occupied (fs : FileSystem) (path : String) : Prop :=
  ∃ place, fs.resolve .named path = .ok place ∧ ∀ directory name, place ≠ .vacant directory name

theorem Occupied.place_ne_ok {node : Node} (h : fs.Occupied path) (made : Nat × FileSystem) :
    fs.place path node ≠ .ok made := by
  obtain ⟨id, fs'⟩ := made
  obtain ⟨place, leads, taken⟩ := h
  intro placed
  obtain ⟨p, spot, free, plain, -⟩ := place_eq_ok_iff.mp placed
  obtain ⟨front, hn, proper, -, hd⟩ := within_of_spot? spot
  obtain ⟨-, hl⟩ := resolve_eq_ok_iff.mp leads
  rw [steps, hn, if_neg (by simp [plain]), List.append_nil] at hl
  obtain ⟨inner, left, hd', hlast⟩ := hl.split proper
  cases hd.unique hd'
  obtain ⟨e, -, here⟩ | ⟨vacant, -⟩ := hlast.named proper
  · cases here.symm.trans free
  · exact taken _ _ vacant

theorem Occupied.bindEntry_ne_ok (h : fs.Occupied path) (bound : Nat × FileSystem) :
    Sockets.bindEntry fs path ≠ .ok bound := by
  obtain ⟨entry, fs'⟩ := bound
  intro made
  obtain ⟨-, -, rfl⟩ | placed := bindEntry_eq_ok made
  · obtain ⟨place, leads, -⟩ := h
    obtain ⟨named, -⟩ := resolve_eq_ok_iff.mp leads
    cases named
  · exact h.place_ne_ok _ placed

/-- The lock file of a path does not have the name of the path. -/
theorem spot?_lockPath_ne {p : Spot} (h : fs.spot? path = .ok (some p))
    (plain : endsInSlash path = false) : fs.spot? (lockPath path) ≠ .ok (some p) := by
  intro lock
  obtain ⟨front, hn, -⟩ := within_of_spot? h
  obtain ⟨front', hn', -⟩ := within_of_spot? lock
  have same := steps_lockPath hn plain
  rw [steps, hn', if_neg (by simp [endsInSlash_lockPath]), List.append_nil] at same
  obtain ⟨-, last⟩ := List.append_inj' same rfl
  have longer := congrArg String.length (List.head_eq_of_cons_eq last)
  rw [String.length_append] at longer
  simp at longer

/-- A link stands at a path. -/
def HasLink (fs : FileSystem) (path : String) : Prop :=
  ∃ e target, fs.entryAt? path = some e ∧ e.node = .symlink target

/-- A new file gets the name that it was opened by, unless that is the name of a link. -/
theorem spot?_of_newFile {directory : Nat} (h : fs.resolve .newFile path = .ok (.vacant directory name))
    (plain : endsInSlash path = false) :
    fs.spot? path = .ok (some ⟨directory, name⟩) ∨ fs.HasLink path := by
  obtain ⟨hc, hl⟩ := resolve_eq_ok_iff.mp h
  rw [steps, if_neg (by simp [plain]), List.append_nil] at hl
  obtain hnil | ⟨front, last, hn⟩ := List.eq_nil_or_concat (names path)
  · rw [hnil] at hl
    cases hl
  · rw [List.concat_eq_append] at hn
    rw [hn] at hl
    have proper : Proper last := by
      obtain ⟨_, hw⟩ | hp := hl.within_or_proper
      · cases hw
      · exact hp
    obtain ⟨inner, left, hd, hlast⟩ := hl.split proper
    have spot := spot?_of_within hc hn proper hd
    cases hlast with
    | stay dot _ => exact absurd dot proper.1
    | up _ => exact absurd rfl proper.2.1
    | vacant => exact .inl spot
    | enter _ _ _ more => exact absurd rfl more
    | follow _ here link =>
      exact .inr ⟨_, _, (entryAt?_of_spot? spot plain).trans here, link⟩

/-- A new file is all that a tree shows besides what it showed before. -/
theorem entryAt?_of_create_file (wf : fs.WellFormed) {directory : Nat}
    (h : (fs.create directory name .file).entryAt? path = some e) :
    fs.entryAt? path = some e ∨
      fs.entryAt? path = none ∧ e.node = .file ∧ fs.spot? path = .ok (some ⟨directory, name⟩) := by
  obtain ⟨front, hn, plain, proper, hc, here, hd⟩ := exists_spot_of_entryAt? h
  have spot := spot?_of_create_file wf (spot?_of_within hc hn proper hd)
  rw [entryAt?_of_spot? spot plain, occupant?]
  simp only [find?, create, List.find?_append, Option.or_eq_some_iff] at here ⊢
  obtain old | ⟨none, new⟩ := here
  · exact .inl old
  · obtain rfl := List.mem_singleton.mp (List.mem_of_find?_eq_some new)
    exact .inr ⟨none, rfl, spot⟩

/-- A path that leads to a directory without naming it leads there for good. -/
theorem Keeps.within {kept : Entry → Prop} (k : fs.Keeps fs' kept) (wf : fs.WellFormed) {directory : Nat}
    (h : fs.resolve .named path = .ok (.within directory)) :
    fs'.resolve .named path = .ok (.within directory) := by
  obtain ⟨hc, hl⟩ := resolve_eq_ok_iff.mp h
  exact resolve_eq_ok_iff.mpr ⟨hc, k.leads wf .root hl (by simp) (by simp)⟩

/-- What may have been added to a tree when the lock file of a path was opened. -/
structure Opened (fs fs' : FileSystem) (path : String) : Prop where
  wellFormed : fs'.WellFormed
  keeps : fs.Keeps fs' fun _ => True
  made : ∀ e ∈ fs'.entries, e ∈ fs.entries ∨ e.node = .file ∧
    fs.resolve .newFile (lockPath path) = .ok (.vacant e.parent e.name) ∧
      (fs'.entryAt? (lockPath path) = some e ∨ fs.HasLink (lockPath path))
  shown : ∀ e, fs'.entryAt? path = some e →
    fs.entryAt? path = some e ∨ fs.entryAt? path = none ∧ e.node = .file ∧ fs.HasLink (lockPath path)

theorem opened_of_openFile (wf : fs.WellFormed) {id : Nat}
    (h : fs.openFile (lockPath path) = .ok (id, fs')) : fs.Opened fs' path := by
  obtain ⟨wf', keeps, -⟩ := openFile_eq_ok wf h
  obtain ⟨directory, name, vacant, -, rfl⟩ | rfl := openFile_cases h
  · have named := spot?_of_newFile vacant (endsInSlash_lockPath path)
    refine ⟨wf', keeps, fun e mem => ?_, fun e shown => ?_⟩
    · obtain old | new := List.mem_append.mp mem
      · exact .inl old
      · obtain rfl := List.mem_singleton.mp new
        refine .inr ⟨rfl, vacant, named.imp_left fun spot => ?_⟩
        have spot' := keeps.spot? wf spot
        rw [entryAt?_of_spot? spot' (endsInSlash_lockPath path)]
        exact find?_create_self (resolve_eq_ok_iff.mp vacant).2.missing
    · obtain old | ⟨none, file, spot⟩ := entryAt?_of_create_file wf shown
      · exact .inl old
      · obtain ⟨front, hn, plain, -⟩ := exists_spot_of_entryAt? shown
        exact .inr ⟨none, file, named.resolve_left (spot?_lockPath_ne spot plain)⟩
  · exact ⟨wf', keeps, fun e mem => .inl mem, fun e shown => .inl shown⟩

end EvidenceExchange.FileSystem
