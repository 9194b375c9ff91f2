import EvidenceExchange.Proofs.FileSystem.Steps

namespace EvidenceExchange.FileSystem

/-- All entries of a spot. A path leads to the first of them. -/
def standing (fs : FileSystem) (p : Spot) : List Entry :=
  fs.entries.filter fun e => e.parent == p.directory && e.name == p.name

theorem head?_standing (fs : FileSystem) (p : Spot) : (fs.standing p).head? = fs.occupant? p :=
  List.head?_filter

theorem standing_eq_nil_iff {fs : FileSystem} {p : Spot} :
    fs.standing p = [] ↔ fs.occupant? p = none := by
  rw [← head?_standing, List.head?_eq_none_iff]

theorem standing_create_self (fs : FileSystem) (p : Spot) (node : Node) :
    (fs.create p.directory p.name node).standing p =
      fs.standing p ++ [⟨fs.fresh, p.directory, p.name, node⟩] := by
  simp [standing, create]

theorem standing_create_other {fs : FileSystem} {p : Spot} {directory : Nat} {name : String}
    (other : Spot.mk directory name ≠ p) (node : Node) :
    (fs.create directory name node).standing p = fs.standing p := by
  have elsewhere : (directory == p.directory && name == p.name) = false := by
    by_contra same
    simp only [Bool.not_eq_false, Bool.and_eq_true, beq_iff_eq] at same
    exact other (by rw [same.1, same.2])
  simp [standing, create, elsewhere]

theorem standing_erase_eq_filter (fs : FileSystem) (p : Spot) (id : Nat) :
    (fs.erase id).standing p = (fs.standing p).filter fun e => e.id != id && !fs.isInside id e :=
  List.filter_comm _ _ _

theorem standing_erase {fs : FileSystem} {p : Spot} {e : Entry} (alone : fs.standing p = [e]) :
    (fs.erase e.id).standing p = [] := by
  rw [standing_erase_eq_filter, alone]
  simp

/-- What stands alone still stands alone when something else is removed that is no directory. -/
theorem standing_erase_other {fs : FileSystem} (wf : fs.WellFormed) {p : Spot} {e gone : Entry}
    (alone : fs.standing p = [e]) (rooted : fs.Rooted p.directory) (mem : gone ∈ fs.entries)
    (plain : gone.node ≠ .directory) (ne : e ≠ gone) : (fs.erase gone.id).standing p = [e] := by
  obtain ⟨here, named⟩ := List.mem_filter.mp (alone ▸ List.mem_singleton_self e : e ∈ fs.standing p)
  simp only [Bool.and_eq_true, beq_iff_eq] at named
  have stays := stays_in_erase wf mem plain here (named.1 ▸ rooted) ne
  rw [standing_erase_eq_filter, alone]
  simp only [List.filter_cons, List.filter_nil, stays, if_true]

theorem rooted_of_spot? {fs : FileSystem} (wf : fs.WellFormed) {path : String} {p : Spot}
    (h : fs.spot? path = .ok (some p)) : fs.Rooted p.directory := by
  obtain ⟨_, _, _, _, leads⟩ := within_of_spot? h
  exact leads.rooted wf .root (.inl rfl)

/-- Without a slash at its end, a path leads to what stands at its spot. -/
theorem entryAt?_of_spot? {fs : FileSystem} {path : String} {p : Spot}
    (h : fs.spot? path = .ok (some p)) (plain : endsInSlash path = false) :
    fs.entryAt? path = fs.occupant? p := by
  obtain ⟨front, hn, proper, hc, hd⟩ := within_of_spot? h
  cases occupied : fs.occupant? p with
  | some e =>
    refine entryAt?_eq_some_iff.mpr (resolve_eq_ok_iff.mpr ⟨hc, ?_⟩)
    rw [steps, hn, if_neg (by simp [plain]), List.append_nil]
    exact hd.join proper occupied (.inl rfl)
  | none =>
    refine Option.eq_none_iff_forall_ne_some.mpr fun e he => ?_
    obtain ⟨front', hn', -, -, -, here, hd'⟩ := exists_spot_of_entryAt? he
    obtain ⟨rfl, hname⟩ := List.append_inj' (hn'.symm.trans hn) rfl
    have hdir : e.parent = p.directory := Place.within.inj (hd'.unique hd)
    rw [List.head_eq_of_cons_eq hname, hdir] at here
    cases here.symm.trans occupied

theorem resolve_of_spot? {fs : FileSystem} {path : String} {p : Spot} {e : Entry}
    (h : fs.spot? path = .ok (some p)) (plain : endsInSlash path = false)
    (here : fs.occupant? p = some e) (final : ∀ target, e.node ≠ .symlink target) :
    fs.resolve .target path = .ok (.entry e) := by
  obtain ⟨front, hn, proper, hc, hd⟩ := within_of_spot? h
  refine resolve_eq_ok_iff.mpr ⟨hc, ?_⟩
  rw [steps, hn, if_neg (by simp [plain]), List.append_nil]
  exact hd.join proper here (.inr final)

theorem Keeps.spot? {fs fs' : FileSystem} {kept : Entry → Prop} (k : fs.Keeps fs' kept)
    (wf : fs.WellFormed) {path : String} {p : Spot} (h : fs.spot? path = .ok (some p)) :
    fs'.spot? path = .ok (some p) := by
  obtain ⟨front, hn, proper, hc, hd⟩ := within_of_spot? h
  exact spot?_of_within hc hn proper (k.leads wf .root hd (by simp) (by simp))

theorem find?_of_create {fs : FileSystem} {directory parent : Nat} {name new : String} {node : Node}
    {e : Entry} (h : (fs.create parent new node).find? directory name = some e) :
    fs.find? directory name = some e ∨ e.node = node := by
  simp only [find?, create, List.find?_append, Option.or_eq_some_iff] at h
  obtain h | ⟨-, h⟩ := h
  · exact .inl h
  · obtain rfl := List.mem_singleton.mp (List.mem_of_find?_eq_some h)
    exact .inr rfl

/-- No way to a directory goes through a new file. -/
theorem Leads.of_create_file {fs : FileSystem} (wf : fs.WellFormed) {aim : Aim}
    {links directory inner parent : Nat} {way : List String} {new : String}
    (start : fs.Rooted directory)
    (h : Leads (fs.create parent new .file) aim links directory way (.within inner)) :
    Leads fs aim links directory way (.within inner) := by
  generalize hp : Place.within inner = place at h
  induction h with
  | finish => exact .finish
  | stay dot _ ih => exact .stay dot (ih start hp)
  | up _ ih =>
    rw [above_create (start.lt_fresh wf).ne] at ih
    exact .up (ih (start.above wf) hp)
  | vacant | found => cases hp
  | enter proper here inside more allowed _ ih =>
    obtain old | new := find?_of_create here
    · exact .enter proper old inside more allowed (ih (start.enter old inside) hp)
    · cases inside.symm.trans new
  | follow proper here link passes allowed nonempty _ ih =>
    obtain old | new := find?_of_create here
    · exact .follow proper old link passes allowed nonempty (ih start hp)
    · cases link.symm.trans new

theorem spot?_of_create_file {fs : FileSystem} (wf : fs.WellFormed) {parent : Nat} {new path : String}
    {p : Spot} (h : (fs.create parent new .file).spot? path = .ok (some p)) :
    fs.spot? path = .ok (some p) := by
  obtain ⟨front, hn, proper, hc, hd⟩ := within_of_spot? h
  exact spot?_of_within hc hn proper (hd.of_create_file wf .root)

/-- A number that was given out once and belongs to nothing any more. -/
def Gone (fs : FileSystem) (id : Nat) : Prop := id < fs.fresh ∧ ∀ e ∈ fs.entries, e.id ≠ id

theorem Onward.gone {fs fs' : FileSystem} (h : fs.Onward fs') {id : Nat} (gone : fs.Gone id) :
    fs'.Gone id := by
  refine ⟨gone.1.trans_le h.fresh_le, fun e' he' => ?_⟩
  obtain le | ⟨e, he, same⟩ := h.origin e' he'
  · exact (gone.1.trans_le le).ne'
  · exact same ▸ gone.2 e he

theorem WellFormed.gone_erase {fs : FileSystem} (wf : fs.WellFormed) {e : Entry}
    (mem : e ∈ fs.entries) : (fs.erase e.id).Gone e.id := by
  refine ⟨wf.lt e mem, fun x hx => ?_⟩
  have kept := (List.mem_filter.mp hx).2
  simp only [Bool.and_eq_true, bne_iff_ne] at kept
  exact kept.1

end EvidenceExchange.FileSystem
