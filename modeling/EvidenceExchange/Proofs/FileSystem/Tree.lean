import EvidenceExchange.Proofs.FileSystem.Walk

namespace EvidenceExchange.FileSystem

/-- Entries have numbers of their own, none of which is given out again. -/
structure WellFormed (fs : FileSystem) : Prop where
  nodup : (fs.entries.map Entry.id).Nodup
  pos : ∀ e ∈ fs.entries, workingDirectory < e.id
  lt : ∀ e ∈ fs.entries, e.id < fs.fresh
  parent_lt : ∀ e ∈ fs.entries, e.parent < fs.fresh
  fresh_pos : workingDirectory < fs.fresh

/-- The directories that can be reached by names from the working directory. -/
inductive Rooted (fs : FileSystem) : Nat → Prop
  | root : Rooted fs workingDirectory
  | child {e : Entry} (mem : e ∈ fs.entries) (inside : e.node = .directory)
      (above : Rooted fs e.parent) : Rooted fs e.id

theorem mem_of_find? {fs : FileSystem} {directory : Nat} {name : String} {e : Entry}
    (h : fs.find? directory name = some e) :
    e ∈ fs.entries ∧ e.parent = directory ∧ e.name = name := by
  have hp := List.find?_some h
  simp only [Bool.and_eq_true, beq_iff_eq] at hp
  exact ⟨List.mem_of_find?_eq_some h, hp⟩

theorem mem_of_byId? {fs : FileSystem} {id : Nat} {e : Entry} (h : fs.byId? id = some e) :
    e ∈ fs.entries ∧ e.id = id :=
  ⟨List.mem_of_find?_eq_some h, by simpa using List.find?_some h⟩

theorem WellFormed.eq_of_id {fs : FileSystem} (wf : fs.WellFormed) {e e' : Entry}
    (h : e ∈ fs.entries) (h' : e' ∈ fs.entries) (same : e.id = e'.id) : e = e' :=
  List.inj_on_of_nodup_map wf.nodup h h' same

theorem WellFormed.byId?_eq {fs : FileSystem} (wf : fs.WellFormed) {e : Entry}
    (h : e ∈ fs.entries) : fs.byId? e.id = some e := by
  cases hb : fs.byId? e.id with
  | none => simpa using List.find?_eq_none.mp hb e h
  | some e' =>
    obtain ⟨hm, hid⟩ := mem_of_byId? hb
    rw [wf.eq_of_id hm h hid]

theorem WellFormed.above_root {fs : FileSystem} (wf : fs.WellFormed) :
    fs.above workingDirectory = workingDirectory := by
  have hnone : fs.byId? workingDirectory = none := by
    refine List.find?_eq_none.mpr fun e he => ?_
    have := wf.pos e he
    simp only [beq_iff_eq]
    omega
  rw [above, hnone]
  rfl

theorem WellFormed.above_child {fs : FileSystem} (wf : fs.WellFormed) {e : Entry}
    (h : e ∈ fs.entries) : fs.above e.id = e.parent := by
  rw [above, wf.byId?_eq h]
  rfl

theorem Rooted.above {fs : FileSystem} (wf : fs.WellFormed) {directory : Nat}
    (h : fs.Rooted directory) : fs.Rooted (fs.above directory) := by
  cases h with
  | root => rw [wf.above_root]; exact .root
  | child mem inside above => rw [wf.above_child mem]; exact above

theorem Rooted.lt_fresh {fs : FileSystem} (wf : fs.WellFormed) {directory : Nat}
    (h : fs.Rooted directory) : directory < fs.fresh := by
  cases h with
  | root => exact wf.fresh_pos
  | child mem _ _ => exact wf.lt _ mem

theorem Rooted.enter {fs : FileSystem} {directory : Nat} (h : fs.Rooted directory) {name : String}
    {e : Entry} (here : fs.find? directory name = some e) (inside : e.node = .directory) :
    fs.Rooted e.id := by
  obtain ⟨hm, rfl, _⟩ := mem_of_find? here
  exact .child hm inside h

theorem Leads.rooted {fs : FileSystem} {aim : Aim} {links directory inner : Nat}
    {way : List String} {place : Place} (wf : fs.WellFormed)
    (h : Leads fs aim links directory way place) (start : fs.Rooted directory)
    (final : place = .within inner ∨ ∃ name, place = .vacant inner name) : fs.Rooted inner := by
  induction h with
  | finish => obtain hp | ⟨_, hp⟩ := final <;> cases hp; exact start
  | stay _ _ ih => exact ih start final
  | up _ ih => exact ih (start.above wf) final
  | vacant => obtain hp | ⟨_, hp⟩ := final <;> cases hp; exact start
  | found => obtain hp | ⟨_, hp⟩ := final <;> cases hp
  | enter _ here inside _ _ _ ih => exact ih (start.enter here inside) final
  | follow _ _ _ _ _ _ _ ih => exact ih start final

/-- What one tree shows of the entries of a certain sort, another one shows as well. -/
structure Keeps (fs fs' : FileSystem) (kept : Entry → Prop) : Prop where
  find : ∀ {directory name e}, fs.Rooted directory → fs.find? directory name = some e → kept e →
    fs'.find? directory name = some e
  above : ∀ {directory}, fs.Rooted directory → fs'.above directory = fs.above directory
  inner : ∀ {e : Entry}, e.node = .directory → kept e
  link : ∀ {e : Entry} {target}, e.node = .symlink target → kept e

theorem Keeps.refl (fs : FileSystem) : fs.Keeps fs fun _ => True where
  find _ h _ := h
  above _ := rfl
  inner _ := trivial
  link _ := trivial

theorem Keeps.leads {fs fs' : FileSystem} {kept : Entry → Prop} (k : fs.Keeps fs' kept)
    (wf : fs.WellFormed) {aim : Aim} {links directory : Nat} {way : List String} {place : Place}
    (start : fs.Rooted directory) (h : Leads fs aim links directory way place)
    (taken : ∀ inner name, place ≠ .vacant inner name) (stands : ∀ e, place = .entry e → kept e) :
    Leads fs' aim links directory way place := by
  induction h with
  | finish => exact .finish
  | stay dot _ ih => exact .stay dot (ih start taken stands)
  | up _ ih => exact .up (k.above start ▸ ih (start.above wf) taken stands)
  | vacant => exact absurd rfl (taken _ _)
  | found proper here final =>
    exact .found proper (k.find start here (stands _ rfl)) final
  | enter proper here inside more allowed _ ih =>
    exact .enter proper (k.find start here (k.inner inside)) inside more allowed
      (ih (start.enter here inside) taken stands)
  | follow proper here link passes allowed nonempty _ ih =>
    exact .follow proper (k.find start here (k.link link)) link passes allowed nonempty
      (ih start taken stands)

theorem find?_create_of_some {fs : FileSystem} {directory parent : Nat} {name new : String}
    {node : Node} {e : Entry} (h : fs.find? directory name = some e) :
    (fs.create parent new node).find? directory name = some e := by
  simp only [find?] at h
  simp [find?, create, List.find?_append, h]

theorem find?_create_self {fs : FileSystem} {directory : Nat} {name : String} {node : Node}
    (h : fs.find? directory name = none) :
    (fs.create directory name node).find? directory name =
      some ⟨fs.fresh, directory, name, node⟩ := by
  simp only [find?] at h
  simp [find?, create, List.find?_append, h]

theorem above_create {fs : FileSystem} {directory parent : Nat} {new : String} {node : Node}
    (h : directory ≠ fs.fresh) : (fs.create parent new node).above directory = fs.above directory := by
  have hb : (fs.create parent new node).byId? directory = fs.byId? directory := by
    simp only [byId?, FileSystem.create, List.find?_append]
    cases fs.entries.find? (·.id == directory) with
    | some e => rfl
    | none => simp [Ne.symm h]
  rw [above, above, hb]

theorem keeps_create {fs : FileSystem} (wf : fs.WellFormed) (parent : Nat) (new : String)
    (node : Node) : fs.Keeps (fs.create parent new node) fun _ => True where
  find _ h _ := find?_create_of_some h
  above h := above_create (h.lt_fresh wf).ne
  inner _ := trivial
  link _ := trivial

theorem Leads.create {fs : FileSystem} (wf : fs.WellFormed) {aim : Aim} {links directory : Nat}
    {way : List String} {parent : Nat} {new : String} {node : Node}
    (plain : ∀ target, node ≠ .symlink target) (start : fs.Rooted directory)
    (h : Leads fs aim links directory way (.vacant parent new)) :
    Leads (fs.create parent new node) aim links directory way
      (.entry ⟨fs.fresh, parent, new, node⟩) := by
  generalize hp : Place.vacant parent new = place at h
  induction h with
  | finish => cases hp
  | stay dot _ ih => exact .stay dot (ih start hp)
  | up _ ih => exact .up (above_create (start.lt_fresh wf).ne ▸ ih (start.above wf) hp)
  | vacant proper missing =>
    cases hp
    exact .found proper (find?_create_self missing) (.inr plain)
  | found => cases hp
  | enter proper here inside more allowed _ ih =>
    exact .enter proper (find?_create_of_some here) inside more allowed
      (ih (start.enter here inside) hp)
  | follow proper here link passes allowed nonempty _ ih =>
    exact .follow proper (find?_create_of_some here) link passes allowed nonempty (ih start hp)

theorem not_mem_enclosing {fs : FileSystem} (wf : fs.WellFormed) {gone : Entry}
    (mem : gone ∈ fs.entries) (plain : gone.node ≠ .directory) (fuel : Nat) {directory : Nat}
    (h : fs.Rooted directory) : gone.id ∉ fs.enclosing fuel directory := by
  induction fuel generalizing directory with
  | zero => simp [enclosing]
  | succ fuel ih =>
    cases h with
    | root =>
      have := wf.pos gone mem
      simp only [enclosing, if_true, List.mem_singleton]
      omega
    | @child e he inside above =>
      have hne : gone.id ≠ e.id := fun hid => plain (wf.eq_of_id mem he hid ▸ inside)
      have hroot : e.id ≠ workingDirectory := (wf.pos e he).ne'
      simp only [enclosing, if_neg hroot, wf.byId?_eq he, List.mem_cons, not_or]
      exact ⟨hne, ih above⟩

theorem stays_in_erase {fs : FileSystem} (wf : fs.WellFormed) {gone e : Entry}
    (mem : gone ∈ fs.entries) (plain : gone.node ≠ .directory) (he : e ∈ fs.entries)
    (h : fs.Rooted e.parent) (ne : e ≠ gone) : (e.id != gone.id && !fs.isInside gone.id e) = true := by
  have hid : e.id ≠ gone.id := fun hid => ne (wf.eq_of_id he mem hid)
  have hin := not_mem_enclosing wf mem plain (fs.entries.length + 1) h
  simp [isInside, hid, hin]

theorem find?_filter_of_some {p q : Entry → Bool} {entries : List Entry} {e : Entry}
    (h : entries.find? p = some e) (hq : q e = true) :
    (entries.filter q).find? p = some e := by
  obtain ⟨hp, front, back, rfl, hfront⟩ := List.find?_eq_some_iff_append.mp h
  refine List.find?_eq_some_iff_append.mpr
    ⟨hp, front.filter q, back.filter q, by simp [hq], fun x hx => ?_⟩
  exact hfront x (List.mem_filter.mp hx).1

theorem keeps_erase {fs : FileSystem} (wf : fs.WellFormed) {gone : Entry}
    (mem : gone ∈ fs.entries) (plain : gone.node ≠ .directory)
    (solid : ∀ target, gone.node ≠ .symlink target) :
    fs.Keeps (fs.erase gone.id) fun e => e ≠ gone where
  find hr h he := by
    obtain ⟨hm, rfl, _⟩ := mem_of_find? h
    exact find?_filter_of_some h (stays_in_erase wf mem plain hm hr he)
  above hr := by
    cases hr with
    | root =>
      have hnone : (fs.erase gone.id).byId? workingDirectory = none := by
        refine List.find?_eq_none.mpr fun e he => ?_
        have := wf.pos e (List.mem_filter.mp he).1
        simp only [beq_iff_eq]
        omega
      rw [wf.above_root, above, hnone]
      rfl
    | @child e he inside hr =>
      have ne : e ≠ gone := fun heq => plain (heq ▸ inside)
      have hfind : (fs.erase gone.id).byId? e.id = some e :=
        find?_filter_of_some (wf.byId?_eq he) (stays_in_erase wf mem plain he hr ne)
      rw [wf.above_child he, above, hfind]
      rfl
  inner h heq := plain (heq ▸ h)
  link h heq := solid _ (heq ▸ h)

theorem WellFormed.create {fs : FileSystem} (wf : fs.WellFormed) {parent : Nat}
    (h : parent < fs.fresh) (name : String) (node : Node) : (fs.create parent name node).WellFormed where
  nodup := by
    simp only [FileSystem.create, List.map_append, List.map_cons, List.map_nil]
    refine List.Nodup.append wf.nodup (by simp) ?_
    simp only [List.disjoint_singleton, List.mem_map, not_exists, not_and]
    exact fun e he => (wf.lt e he).ne
  pos := by
    have := wf.fresh_pos
    simp only [FileSystem.create, List.mem_append, List.mem_singleton]
    rintro e (he | rfl)
    · exact wf.pos e he
    · exact this
  lt := by
    simp only [FileSystem.create, List.mem_append, List.mem_singleton]
    rintro e (he | rfl)
    · exact Nat.lt_succ_of_lt (wf.lt e he)
    · exact Nat.lt_succ_self _
  parent_lt := by
    simp only [FileSystem.create, List.mem_append, List.mem_singleton]
    rintro e (he | rfl)
    · exact Nat.lt_succ_of_lt (wf.parent_lt e he)
    · exact Nat.lt_succ_of_lt h
  fresh_pos := Nat.lt_succ_of_lt wf.fresh_pos

theorem WellFormed.filter {fs : FileSystem} (wf : fs.WellFormed) (p : Entry → Bool) :
    ({ fs with entries := fs.entries.filter p } : FileSystem).WellFormed where
  nodup := wf.nodup.sublist (List.filter_sublist.map _)
  pos e he := wf.pos e (List.mem_filter.mp he).1
  lt e he := wf.lt e (List.mem_filter.mp he).1
  parent_lt e he := wf.parent_lt e (List.mem_filter.mp he).1
  fresh_pos := wf.fresh_pos

theorem WellFormed.erase {fs : FileSystem} (wf : fs.WellFormed) (id : Nat) :
    (fs.erase id).WellFormed :=
  wf.filter _

theorem wellFormed_empty : empty.WellFormed where
  nodup := by simp [empty]
  pos := by simp [empty]
  lt := by simp [empty]
  parent_lt := by simp [empty]
  fresh_pos := by decide

end EvidenceExchange.FileSystem
