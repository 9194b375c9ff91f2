import EvidenceExchange.Proofs.Checks
import EvidenceExchange.Proofs.FileSystem.Tree
import EvidenceExchange.Transport

namespace EvidenceExchange.FileSystem

open Transport (lockPath)

/-- More characters without a slash go to the last of the parts between slashes. -/
theorem splitSlash_append (earlier cs : List Char) :
    ∃ front last, splitSlash earlier cs = front ++ [last] ∧
      (∀ ds, '/' ∉ ds → splitSlash earlier (cs ++ ds) = front ++ [last ++ ds]) ∧
      (last = [] → cs.getLast? = some '/' ∨ (cs = [] ∧ earlier = [])) := by
  induction cs generalizing earlier with
  | nil =>
    refine ⟨[], earlier.reverse, rfl, fun ds hds => ?_, fun h => .inr ⟨rfl, by simpa using h⟩⟩
    induction ds generalizing earlier with
    | nil => simp [splitSlash]
    | cons d ds ih =>
      obtain ⟨hd, hds⟩ := not_or.mp (List.mem_cons.not.mp hds)
      have := ih (d :: earlier) hds
      simp only [List.nil_append, List.reverse_cons, List.append_assoc] at this
      simpa [splitSlash, Ne.symm hd] using this
  | cons c cs ih =>
    by_cases hc : c = '/'
    · obtain ⟨front, last, hsplit, happend, hlast⟩ := ih []
      refine ⟨earlier.reverse :: front, last, by simp [splitSlash, hc, hsplit],
        fun ds hds => by simp [splitSlash, hc, happend ds hds], fun h => .inl ?_⟩
      obtain hslash | ⟨rfl, -⟩ := hlast h
      · rw [List.getLast?_cons, hslash]
        rfl
      · simp [hc]
    · obtain ⟨front, last, hsplit, happend, hlast⟩ := ih (c :: earlier)
      refine ⟨front, last, by simp [splitSlash, hc, hsplit],
        fun ds hds => by simp [splitSlash, hc, happend ds hds], fun h => .inl ?_⟩
      obtain hslash | ⟨-, hnil⟩ := hlast h
      · rw [List.getLast?_cons, hslash]
        rfl
      · cases hnil

theorem endsInSlash_lockPath (path : String) : endsInSlash (lockPath path) = false := by
  simp [endsInSlash, lockPath, String.toList_append, List.getLast?_append]

theorem steps_lockPath {path name : String} {front : List String}
    (h : names path = front ++ [name]) (plain : endsInSlash path = false) :
    steps (lockPath path) = front ++ [name ++ ".lock"] := by
  obtain ⟨parts, last, hsplit, happend, hlast⟩ := splitSlash_append [] path.toList
  have hlock := happend ".lock".toList (by decide)
  have hne : last ≠ [] := by
    intro hnil
    obtain hslash | ⟨hpath, -⟩ := hlast hnil
    · simp [endsInSlash, hslash] at plain
    · simp [names, hpath, splitSlash] at h
  have hnames : names path =
      ((parts.filter (!·.isEmpty)).map String.ofList) ++ [String.ofList last] := by
    simp [names, hsplit, hne]
  obtain ⟨rfl, hname⟩ := List.append_inj' (hnames.symm.trans h) rfl
  obtain rfl := List.head_eq_of_cons_eq hname
  rw [steps, endsInSlash_lockPath, names, lockPath, String.toList_append, hlock]
  simp [hne]

theorem ne_empty_of_mem_names {path name : String} (h : name ∈ names path) : name ≠ "" := by
  simp only [names, List.mem_map, List.mem_filter] at h
  obtain ⟨cs, ⟨_, hcs⟩, rfl⟩ := h
  intro hnil
  have : cs = [] := by simpa using congrArg String.toList hnil
  simp [this] at hcs

theorem resolve_eq_ok_iff {fs : FileSystem} {aim : Aim} {path : String} {place : Place} :
    fs.resolve aim path = .ok place ↔
      checkPath path = .ok () ∧ Leads fs aim maxLinks workingDirectory (steps path) place := by
  simp only [resolve, Except.bind_eq_ok_iff, follow]
  constructor
  · rintro ⟨_, hc, h⟩
    exact ⟨hc, leads_of_walk h⟩
  · rintro ⟨hc, h⟩
    exact ⟨(), hc, h.walk⟩

theorem entryAt?_eq_some_iff {fs : FileSystem} {path : String} {e : Entry} :
    fs.entryAt? path = some e ↔ fs.resolve .named path = .ok (.entry e) := by
  unfold entryAt?
  split
  next e' h => simp [h, eq_comm]
  next h =>
    constructor
    · intro hn
      cases hn
    · intro hr
      exact absurd hr (h e)

/-- What stands at a path has the last name of the path in some directory. -/
theorem exists_spot_of_entryAt? {fs : FileSystem} {path : String} {e : Entry}
    (h : fs.entryAt? path = some e) :
    ∃ front, names path = front ++ [e.name] ∧ endsInSlash path = false ∧ Proper e.name ∧
      checkPath path = .ok () ∧ fs.find? e.parent e.name = some e ∧
      Leads fs .target maxLinks workingDirectory (front ++ [""]) (.within e.parent) := by
  obtain ⟨hc, hl⟩ := resolve_eq_ok_iff.mp (entryAt?_eq_some_iff.mp h)
  have plain : endsInSlash path = false := by
    by_contra hs
    rw [steps, if_pos (by simpa using hs)] at hl
    obtain ⟨_, hw⟩ | hp := hl.within_or_proper
    · cases hw
    · exact hp.1 (.inl rfl)
  rw [steps, if_neg (by simp [plain]), List.append_nil] at hl
  obtain hnil | ⟨front, name, hn⟩ := List.eq_nil_or_concat (names path)
  · rw [hnil] at hl
    cases hl
  · rw [List.concat_eq_append] at hn
    rw [hn] at hl
    have proper : Proper name := by
      obtain ⟨_, hw⟩ | hp := hl.within_or_proper
      · cases hw
      · exact hp
    obtain ⟨inner, left, hd, he⟩ := hl.split proper
    have here : fs.find? inner name = some e := by
      cases he with
      | stay dot _ => exact absurd dot proper.1
      | up _ => exact absurd rfl proper.2.1
      | found _ here _ => exact here
      | enter _ _ _ more => exact absurd rfl more
      | follow _ _ _ passes => exact absurd ⟨rfl, rfl⟩ passes
    obtain ⟨_, rfl, rfl⟩ := mem_of_find? here
    exact ⟨front, hn, plain, proper, hc, here, hd⟩

theorem spot?_of_within {fs : FileSystem} {path name : String} {front : List String}
    {directory : Nat} (hc : checkPath path = .ok ()) (hn : names path = front ++ [name])
    (proper : Proper name)
    (hd : Leads fs .target maxLinks workingDirectory (front ++ [""]) (.within directory)) :
    fs.spot? path = .ok (some ⟨directory, name⟩) := by
  have hdots : ¬(name = "." ∨ name = "..") :=
    not_or.mpr ⟨fun h => proper.1 (.inr h), proper.2.1⟩
  simp only [spot?, hc, spotOf?, hn, List.getLast?_concat, List.dropLast_concat, follow, hd.walk,
    if_neg hdots, if_neg (not_lt.mpr proper.2.2)]
  rfl

theorem within_of_spot? {fs : FileSystem} {path : String} {p : Spot}
    (h : fs.spot? path = .ok (some p)) :
    ∃ front, names path = front ++ [p.name] ∧ Proper p.name ∧ checkPath path = .ok () ∧
      Leads fs .target maxLinks workingDirectory (front ++ [""]) (.within p.directory) := by
  simp only [spot?, Except.bind_eq_ok_iff, spotOf?] at h
  obtain ⟨_, hc, h⟩ := h
  split at h
  next => cases h
  next name hlast =>
    obtain ⟨front, hn⟩ := List.getLast?_eq_some_iff.mp hlast
    split at h
    next => cases h
    next directory hd =>
      split at h
      next => cases h
      next hdots =>
        obtain ⟨hlong, h⟩ := Except.ite_eq_ok_iff.mp h
        obtain rfl := Option.some.inj (Except.ok.inj h)
        obtain ⟨hdot, hup⟩ := not_or.mp hdots
        have mem : name ∈ names path := by simp [hn]
        have hne := ne_empty_of_mem_names mem
        rw [hn, List.dropLast_concat] at hd
        exact ⟨front, hn, ⟨not_or.mpr ⟨hne, hdot⟩, hup, not_lt.mp hlong⟩, hc, leads_of_walk hd⟩
    next => cases h

theorem unlink_of_entryAt? {fs : FileSystem} {path : String} {e : Entry}
    (h : fs.entryAt? path = some e) (plain : e.node ≠ .directory) :
    fs.unlink path = .ok (fs.erase e.id) := by
  obtain ⟨front, hn, hs, proper, hc, here, hd⟩ := exists_spot_of_entryAt? h
  have hdir : isDirectory e = false := by simpa [isDirectory] using plain
  simp only [unlink, spot?_of_within hc hn proper hd, occupant?, here, hdir, hs]
  rfl

theorem place_eq_ok_iff {fs fs' : FileSystem} {path : String} {node : Node} {id : Nat} :
    fs.place path node = .ok (id, fs') ↔
      ∃ p, fs.spot? path = .ok (some p) ∧ fs.occupant? p = none ∧ endsInSlash path = false ∧
        id = fs.fresh ∧ fs' = fs.create p.directory p.name node := by
  unfold place
  split
  next hp => simp [hp]
  next hp => simp [hp]
  next p hp =>
    constructor
    · intro h
      obtain ⟨free, h⟩ := Except.ite_eq_ok_iff.mp h
      obtain ⟨plain, h⟩ := Except.ite_eq_ok_iff.mp h
      cases h
      exact ⟨p, hp, by simpa using free, by simpa using plain, rfl, rfl⟩
    · rintro ⟨p', hp', free, plain, rfl, rfl⟩
      obtain rfl := Option.some.inj (Except.ok.inj (hp.symm.trans hp'))
      simp [free, plain]

/-- What is made at a path stands there, and all else where it stood. -/
theorem place_eq_ok {fs fs' : FileSystem} (wf : fs.WellFormed) {path : String} {node : Node}
    {id : Nat} (h : fs.place path node = .ok (id, fs')) :
    fs'.WellFormed ∧ fs.Keeps fs' (fun _ => True) ∧
      ∃ e, fs'.entryAt? path = some e ∧ e.id = id ∧ e.node = node := by
  obtain ⟨p, hp, missing, hs, rfl, rfl⟩ := place_eq_ok_iff.mp h
  obtain ⟨front, hn, proper, hc, hd⟩ := within_of_spot? hp
  have keeps := keeps_create wf p.directory p.name node
  have rooted := hd.rooted wf .root (.inl rfl)
  have hd' := keeps.leads wf .root hd (by simp) (by simp)
  refine ⟨wf.create (rooted.lt_fresh wf) _ _, keeps, ⟨fs.fresh, p.directory, p.name, node⟩, ?_,
    rfl, rfl⟩
  refine entryAt?_eq_some_iff.mpr (resolve_eq_ok_iff.mpr ⟨hc, ?_⟩)
  rw [steps, hn, if_neg (by simp [hs]), List.append_nil]
  exact hd'.join proper (find?_create_self missing) (.inl rfl)

theorem openFile_eq_ok_self_iff {fs : FileSystem} {path : String} {id : Nat} :
    fs.openFile path = .ok (id, fs) ↔
      ∃ e, fs.resolve .newFile path = .ok (.entry e) ∧ e.node = .file ∧ e.id = id := by
  unfold openFile
  split
  next h => simp [h]
  next h => simp [h]
  next directory name h =>
    have hne : fs.create directory name .file ≠ fs := by
      intro heq
      have := congrArg fresh heq
      simp [create] at this
    simp [h, hne]
  next e h =>
    cases hn : e.node <;> simp [h, hn]

/-- A file is made where there is none. -/
theorem openFile_cases {fs fs' : FileSystem} {path : String} {id : Nat}
    (h : fs.openFile path = .ok (id, fs')) :
    (∃ directory name, fs.resolve .newFile path = .ok (.vacant directory name) ∧ id = fs.fresh ∧
      fs' = fs.create directory name .file) ∨ fs' = fs := by
  unfold openFile at h
  split at h
  next => cases h
  next => cases h
  next directory name hr =>
    obtain ⟨rfl, rfl⟩ := Prod.mk.inj (Except.ok.inj h)
    exact .inl ⟨directory, name, hr, rfl, rfl⟩
  next =>
    split at h <;> cases h
    exact .inr rfl

/-- The file that is opened is the one that the path leads to from then on. -/
theorem openFile_eq_ok {fs fs' : FileSystem} (wf : fs.WellFormed) {path : String} {id : Nat}
    (h : fs.openFile path = .ok (id, fs')) :
    fs'.WellFormed ∧ fs.Keeps fs' (fun _ => True) ∧ fs'.openFile path = .ok (id, fs') := by
  obtain ⟨directory, name, hr, rfl, rfl⟩ | rfl := openFile_cases h
  · obtain ⟨hc, hl⟩ := resolve_eq_ok_iff.mp hr
    have rooted := hl.rooted wf .root (.inr ⟨name, rfl⟩)
    refine ⟨wf.create (rooted.lt_fresh wf) _ _, keeps_create wf directory name .file, ?_⟩
    have plain : ∀ target, Node.file ≠ .symlink target := by simp
    have hl' := hl.create wf plain .root
    exact openFile_eq_ok_self_iff.mpr ⟨_, resolve_eq_ok_iff.mpr ⟨hc, hl'⟩, rfl, rfl⟩
  · exact ⟨wf, .refl fs', h⟩

theorem Keeps.entryAt? {fs fs' : FileSystem} {kept : Entry → Prop} (k : fs.Keeps fs' kept)
    (wf : fs.WellFormed) {path : String} {e : Entry} (h : fs.entryAt? path = some e) (he : kept e) :
    fs'.entryAt? path = some e := by
  obtain ⟨hc, hl⟩ := resolve_eq_ok_iff.mp (entryAt?_eq_some_iff.mp h)
  refine entryAt?_eq_some_iff.mpr (resolve_eq_ok_iff.mpr ⟨hc, ?_⟩)
  exact k.leads wf .root hl (by simp) (fun e' heq => by cases heq; exact he)

theorem Keeps.openFile {fs fs' : FileSystem} {kept : Entry → Prop} (k : fs.Keeps fs' kept)
    (wf : fs.WellFormed) (files : ∀ e : Entry, e.node = .file → kept e) {path : String} {id : Nat}
    (h : fs.openFile path = .ok (id, fs)) : fs'.openFile path = .ok (id, fs') := by
  obtain ⟨e, hr, hn, hid⟩ := openFile_eq_ok_self_iff.mp h
  obtain ⟨hc, hl⟩ := resolve_eq_ok_iff.mp hr
  refine openFile_eq_ok_self_iff.mpr ⟨e, resolve_eq_ok_iff.mpr ⟨hc, ?_⟩, hn, hid⟩
  exact k.leads wf .root hl (by simp) (fun e' heq => by cases heq; exact files _ hn)

theorem mem_of_entryAt? {fs : FileSystem} {path : String} {e : Entry} (h : fs.entryAt? path = some e) :
    e ∈ fs.entries := by
  obtain ⟨_, _, _, _, _, here, _⟩ := exists_spot_of_entryAt? h
  exact (mem_of_find? here).1

/-- The removal of a socket hides nothing else, and so no file. -/
theorem keeps_erase_socket {fs : FileSystem} (wf : fs.WellFormed) {path : String} {e : Entry}
    (h : fs.entryAt? path = some e) (socket : e.node = .socket) :
    (fs.Keeps (fs.erase e.id) fun other => other ≠ e) ∧ ∀ file : Entry, file.node = .file → file ≠ e := by
  refine ⟨keeps_erase wf (mem_of_entryAt? h) (by simp [socket]) (by simp [socket]), ?_⟩
  rintro file isFile rfl
  cases socket.symm.trans isFile

/-- Paths to one name have one lock file, whether or not anything has that name. -/
theorem lock_file_unique_of_spot {fs : FileSystem} {path path' : String} {p : Spot} {id id' : Nat}
    (h : fs.spot? path = .ok (some p)) (h' : fs.spot? path' = .ok (some p))
    (plain : endsInSlash path = false) (plain' : endsInSlash path' = false)
    (lock : fs.openFile (lockPath path) = .ok (id, fs))
    (lock' : fs.openFile (lockPath path') = .ok (id', fs)) : id = id' := by
  have beside : ∀ {path : String} {id : Nat}, fs.spot? path = .ok (some p) → endsInSlash path = false →
      fs.openFile (lockPath path) = .ok (id, fs) → ∃ file left, file.id = id ∧
        Leads fs .newFile left p.directory [p.name ++ ".lock"] (.entry file) := by
    intro path id h plain lock
    obtain ⟨front, hn, -, -, hd⟩ := within_of_spot? h
    obtain ⟨file, hr, -, hid⟩ := openFile_eq_ok_self_iff.mp lock
    obtain ⟨-, hl⟩ := resolve_eq_ok_iff.mp hr
    rw [steps_lockPath hn plain] at hl
    have proper : Proper (p.name ++ ".lock") := by
      obtain ⟨_, hw⟩ | hp := hl.within_or_proper
      · cases hw
      · exact hp
    obtain ⟨inner, left, hd', hf⟩ := hl.split proper
    cases hd.unique hd'
    exact ⟨file, left, hid, hf⟩
  obtain ⟨file, _, rfl, hf⟩ := beside h plain lock
  obtain ⟨file', _, rfl, hf'⟩ := beside h' plain' lock'
  cases hf.unique hf'
  rfl

/-- Paths to one entry have one lock file, however they are spelled. -/
theorem lock_file_unique {fs : FileSystem} {path path' : String} {e : Entry} {id id' : Nat}
    (h : fs.entryAt? path = some e) (h' : fs.entryAt? path' = some e)
    (lock : fs.openFile (lockPath path) = .ok (id, fs))
    (lock' : fs.openFile (lockPath path') = .ok (id', fs)) : id = id' := by
  obtain ⟨front, hn, plain, proper, hc, -, hd⟩ := exists_spot_of_entryAt? h
  obtain ⟨front', hn', plain', proper', hc', -, hd'⟩ := exists_spot_of_entryAt? h'
  exact lock_file_unique_of_spot (spot?_of_within hc hn proper hd) (spot?_of_within hc' hn' proper' hd')
    plain plain' lock lock'

end EvidenceExchange.FileSystem
