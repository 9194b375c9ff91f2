import EvidenceExchange.FileSystem
import Mathlib

namespace EvidenceExchange.FileSystem

/-- A name that an entry can have. -/
def Proper (name : String) : Prop :=
  ¬(name = "" ∨ name = ".") ∧ name ≠ ".." ∧ name.utf8ByteSize ≤ maxName

/-- The number in front is that of the links that may still be followed. -/
inductive Leads (fs : FileSystem) (aim : Aim) : Nat → Nat → List String → Place → Prop
  | finish {links directory} : Leads fs aim links directory [] (.within directory)
  | stay {links directory name rest place} (dot : name = "" ∨ name = ".")
      (further : Leads fs aim links directory rest place) :
      Leads fs aim links directory (name :: rest) place
  | up {links directory rest place} (further : Leads fs aim links (fs.above directory) rest place) :
      Leads fs aim links directory (".." :: rest) place
  | vacant {links directory name} (proper : Proper name)
      (missing : fs.find? directory name = none) :
      Leads fs aim links directory [name] (.vacant directory name)
  | found {links directory name e} (proper : Proper name)
      (here : fs.find? directory name = some e)
      (final : aim = .named ∨ ∀ target, e.node ≠ .symlink target) :
      Leads fs aim links directory [name] (.entry e)
  | enter {links directory name e rest place} (proper : Proper name)
      (here : fs.find? directory name = some e) (inside : e.node = .directory) (more : rest ≠ [])
      (allowed : ¬(aim = .newFile ∧ rest = [""])) (further : Leads fs aim links e.id rest place) :
      Leads fs aim links directory (name :: rest) place
  | follow {links directory name e target rest place} (proper : Proper name)
      (here : fs.find? directory name = some e) (link : e.node = .symlink target)
      (passes : ¬(rest = [] ∧ aim = .named)) (allowed : ¬(aim = .newFile ∧ rest = [""]))
      (nonempty : target.isEmpty = false)
      (further : Leads fs aim links directory (steps target ++ rest) place) :
      Leads fs aim (links + 1) directory (name :: rest) place

variable {fs : FileSystem} {aim : Aim}

theorem leads_of_walkTo {jump : Nat → List String → Except IoError Place} {links : Nat}
    {way : List String} {directory : Nat} {place : Place}
    (jumps : ∀ d w, jump d w = .ok place → ∃ n, links = n + 1 ∧ Leads fs aim n d w place)
    (h : walkTo fs aim jump directory way = .ok place) : Leads fs aim links directory way place := by
  induction way generalizing directory with
  | nil =>
    cases h
    exact .finish
  | cons name rest ih =>
    rw [walkTo] at h
    split at h
    next dot => exact .stay dot (ih h)
    next notDot =>
      split at h
      next parent =>
        subst parent
        exact .up (ih h)
      next notParent =>
        split at h
        next => cases h
        next allowed =>
          split at h
          next => cases h
          next short =>
            have proper : Proper name := ⟨notDot, notParent, not_lt.mp short⟩
            split at h
            next missing =>
              split at h
              next last =>
                cases h
                rw [List.isEmpty_iff.mp last]
                exact .vacant proper missing
              next => cases h
            next e here =>
              split at h
              next inside =>
                split at h
                next last =>
                  cases h
                  rw [List.isEmpty_iff.mp last]
                  exact .found proper here (.inr (by simp [inside]))
                next more => exact .enter proper here inside (by simpa using more) allowed (ih h)
              next plain =>
                split at h
                next last =>
                  cases h
                  rw [List.isEmpty_iff.mp last]
                  exact .found proper here (.inr (by simp [plain]))
                next => cases h
              next plain =>
                split at h
                next last =>
                  cases h
                  rw [List.isEmpty_iff.mp last]
                  exact .found proper here (.inr (by simp [plain]))
                next => cases h
              next target link =>
                split at h
                next last =>
                  cases h
                  rw [List.isEmpty_iff.mp last.1]
                  exact .found proper here (.inl last.2)
                next passes =>
                  split at h
                  next => cases h
                  next nonempty =>
                    obtain ⟨n, rfl, further⟩ := jumps _ _ h
                    rw [List.isEmpty_iff] at passes
                    exact .follow proper here link passes allowed (by simpa using nonempty) further

theorem leads_of_walk {links directory : Nat} {way : List String} {place : Place}
    (h : fs.walk aim links directory way = .ok place) : Leads fs aim links directory way place := by
  induction links generalizing directory way with
  | zero => exact leads_of_walkTo (fun _ _ hj => by cases hj) h
  | succ links ih => exact leads_of_walkTo (fun _ _ hj => ⟨links, rfl, ih hj⟩) h

theorem exists_jump (fs : FileSystem) (aim : Aim) (links : Nat) :
    ∃ jump, fs.walk aim links = fs.walkTo aim jump := by
  cases links <;> exact ⟨_, rfl⟩

theorem Leads.walk {links directory : Nat} {way : List String} {place : Place}
    (h : Leads fs aim links directory way place) : fs.walk aim links directory way = .ok place := by
  induction h with
  | @finish links =>
    obtain ⟨jump, hj⟩ := exists_jump fs aim links
    rw [hj, walkTo]
  | @stay links _ _ _ _ dot _ ih =>
    obtain ⟨jump, hj⟩ := exists_jump fs aim links
    rw [hj] at ih ⊢
    rw [walkTo, if_pos dot, ih]
  | @up links _ _ _ _ ih =>
    obtain ⟨jump, hj⟩ := exists_jump fs aim links
    rw [hj] at ih ⊢
    rw [walkTo, if_neg (by decide), if_pos rfl, ih]
  | @vacant links _ _ proper missing =>
    obtain ⟨jump, hj⟩ := exists_jump fs aim links
    rw [hj, walkTo, if_neg proper.1, if_neg proper.2.1, if_neg (by simp),
      if_neg (not_lt.mpr proper.2.2), missing]
    rfl
  | @found links _ _ e proper here final =>
    obtain ⟨jump, hj⟩ := exists_jump fs aim links
    rw [hj, walkTo, if_neg proper.1, if_neg proper.2.1, if_neg (by simp),
      if_neg (not_lt.mpr proper.2.2), here]
    rcases final with rfl | plain
    · cases hn : e.node <;> simp [hn]
    · cases hn : e.node with
      | symlink target => exact absurd hn (plain target)
      | _ => simp [hn]
  | @enter links _ _ _ _ _ proper here inside more allowed _ ih =>
    obtain ⟨jump, hj⟩ := exists_jump fs aim links
    rw [hj] at ih ⊢
    rw [walkTo, if_neg proper.1, if_neg proper.2.1, if_neg allowed,
      if_neg (not_lt.mpr proper.2.2), here]
    simp [inside, more, ih]
  | follow proper here link passes allowed nonempty _ ih =>
    rw [FileSystem.walk, walkTo, if_neg proper.1, if_neg proper.2.1, if_neg allowed,
      if_neg (not_lt.mpr proper.2.2), here]
    simp [link, passes, nonempty, ih]

theorem Leads.weaken {links more directory : Nat} {way : List String} {place : Place}
    (h : Leads fs aim links directory way place) (le : links ≤ more) :
    Leads fs aim more directory way place := by
  induction h generalizing more with
  | finish => exact .finish
  | stay dot _ ih => exact .stay dot (ih le)
  | up _ ih => exact .up (ih le)
  | vacant proper missing => exact .vacant proper missing
  | found proper here final => exact .found proper here final
  | enter proper here inside rest allowed _ ih =>
    exact .enter proper here inside rest allowed (ih le)
  | follow proper here link passes allowed nonempty _ ih =>
    obtain ⟨left, rfl⟩ := Nat.exists_eq_add_of_lt (Nat.lt_of_succ_le le)
    exact .follow proper here link passes allowed nonempty (ih (by omega))

theorem Leads.unique {links links' directory : Nat} {way : List String} {place place' : Place}
    (h : Leads fs aim links directory way place) (h' : Leads fs aim links' directory way place') :
    place = place' := by
  have hw := (h.weaken (le_max_left links links')).walk
  have hw' := (h'.weaken (le_max_right links links')).walk
  exact Except.ok.inj (hw.symm.trans hw')

/-- A way that ends in a name leads to the directory before it, and from there on by the name. -/
theorem Leads.split {links directory : Nat} {front : List String} {name : String} {place : Place}
    (h : Leads fs aim links directory (front ++ [name]) place) (proper : Proper name) :
    ∃ inner left, Leads fs .target links directory (front ++ [""]) (.within inner) ∧
      Leads fs aim left inner [name] place := by
  generalize hway : front ++ [name] = way at h
  induction h generalizing front with
  | finish => simp at hway
  | @stay links _ _ _ _ dot further ih =>
    cases front with
    | nil =>
      obtain ⟨rfl, rfl⟩ := List.cons.inj hway
      exact absurd dot proper.1
    | cons first front =>
      obtain ⟨rfl, rfl⟩ := List.cons.inj hway
      obtain ⟨inner, left, hd, hn⟩ := ih rfl
      exact ⟨inner, left, .stay dot hd, hn⟩
  | @up links _ _ _ further ih =>
    cases front with
    | nil =>
      obtain ⟨rfl, rfl⟩ := List.cons.inj hway
      exact absurd rfl proper.2.1
    | cons first front =>
      obtain ⟨rfl, rfl⟩ := List.cons.inj hway
      obtain ⟨inner, left, hd, hn⟩ := ih rfl
      exact ⟨inner, left, .up hd, hn⟩
  | @vacant links d n hp missing =>
    obtain ⟨rfl, hn⟩ := List.append_eq_singleton_iff.mp hway |>.resolve_right (by simp)
    obtain rfl := List.head_eq_of_cons_eq hn
    exact ⟨d, links, .stay (.inl rfl) .finish, .vacant hp missing⟩
  | @found links d n e hp here final =>
    obtain ⟨rfl, hn⟩ := List.append_eq_singleton_iff.mp hway |>.resolve_right (by simp)
    obtain rfl := List.head_eq_of_cons_eq hn
    exact ⟨d, links, .stay (.inl rfl) .finish, .found hp here final⟩
  | @enter links d _ _ rest _ hp here inside more allowed further ih =>
    cases front with
    | nil =>
      obtain ⟨rfl, rfl⟩ := List.cons.inj hway
      exact absurd rfl more
    | cons first front =>
      obtain ⟨rfl, rfl⟩ := List.cons.inj hway
      obtain ⟨inner, left, hd, hn⟩ := ih rfl
      exact ⟨inner, left, .enter hp here inside (by simp) (by simp) hd, hn⟩
  | @follow links d _ _ target rest _ hp here link passes allowed nonempty further ih =>
    cases front with
    | nil =>
      obtain ⟨rfl, rfl⟩ := List.cons.inj hway
      exact ⟨d, links + 1, .stay (.inl rfl) .finish,
        .follow hp here link passes allowed nonempty further⟩
    | cons first front =>
      obtain ⟨rfl, rfl⟩ := List.cons.inj hway
      obtain ⟨inner, left, hd, hn⟩ := ih (List.append_assoc (steps target) front _)
      refine ⟨inner, left, .follow hp here link (by simp) (by simp) nonempty ?_, hn⟩
      rw [List.append_assoc] at hd
      exact hd

/-- From the directory before it a way leads on to what has the last name, where that is no link to
follow. -/
theorem Leads.join {links directory inner : Nat} {front : List String} {name : String} {e : Entry}
    (h : Leads fs .target links directory (front ++ [""]) (.within inner)) (proper : Proper name)
    (here : fs.find? inner name = some e)
    (final : aim = .named ∨ ∀ target, e.node ≠ .symlink target) :
    Leads fs aim links directory (front ++ [name]) (.entry e) := by
  have allowed : ∀ front : List String, ¬(aim = .newFile ∧ front ++ [name] = [""]) := by
    rintro front ⟨-, last⟩
    obtain ⟨-, last⟩ := List.append_inj' (last.trans (List.nil_append [""]).symm) rfl
    exact proper.1 (.inl (List.head_eq_of_cons_eq last))
  generalize hway : front ++ [""] = way at h
  generalize hplace : Place.within inner = place at h
  induction h generalizing front with
  | finish => simp at hway
  | @stay links d _ _ _ dot further ih =>
    cases front with
    | nil =>
      obtain ⟨rfl, rfl⟩ := List.cons.inj hway
      cases further
      cases hplace
      exact .found proper here final
    | cons first front =>
      obtain ⟨rfl, rfl⟩ := List.cons.inj hway
      exact .stay dot (ih rfl hplace)
  | @up links _ _ _ further ih =>
    cases front with
    | nil => simp at hway
    | cons first front =>
      obtain ⟨rfl, rfl⟩ := List.cons.inj hway
      exact .up (ih rfl hplace)
  | vacant => cases hplace
  | found => cases hplace
  | @enter links d _ _ rest _ hp here' inside more _ further ih =>
    cases front with
    | nil =>
      obtain ⟨rfl, rfl⟩ := List.cons.inj hway
      exact absurd (Or.inl rfl) hp.1
    | cons first front =>
      obtain ⟨rfl, rfl⟩ := List.cons.inj hway
      exact .enter hp here' inside (by simp) (allowed front) (ih rfl hplace)
  | @follow links d _ _ target rest _ hp here' link passes _ nonempty further ih =>
    cases front with
    | nil =>
      obtain ⟨rfl, rfl⟩ := List.cons.inj hway
      exact absurd (Or.inl rfl) hp.1
    | cons first front =>
      obtain ⟨rfl, rfl⟩ := List.cons.inj hway
      have hjoin := ih (List.append_assoc (steps target) front _) hplace
      rw [List.append_assoc] at hjoin
      exact .follow hp here' link (by simp) (allowed front) nonempty hjoin

/-- Only after a name may something else than a directory come last. -/
theorem Leads.within_or_proper {links directory : Nat} {front : List String} {name : String}
    {place : Place} (h : Leads fs aim links directory (front ++ [name]) place) :
    (∃ inner, place = .within inner) ∨ Proper name := by
  generalize hway : front ++ [name] = way at h
  induction h generalizing front with
  | finish => simp at hway
  | stay dot further ih =>
    cases front with
    | nil =>
      obtain ⟨rfl, rfl⟩ := List.cons.inj hway
      cases further
      exact .inl ⟨_, rfl⟩
    | cons first front => exact ih (List.cons.inj hway).2
  | up further ih =>
    cases front with
    | nil =>
      obtain ⟨rfl, rfl⟩ := List.cons.inj hway
      cases further
      exact .inl ⟨_, rfl⟩
    | cons first front => exact ih (List.cons.inj hway).2
  | vacant proper | found proper =>
    obtain ⟨rfl, hn⟩ := List.append_eq_singleton_iff.mp hway |>.resolve_right (by simp)
    exact .inr (List.head_eq_of_cons_eq hn ▸ proper)
  | enter proper here inside more allowed further ih =>
    cases front with
    | nil => exact .inr ((List.cons.inj hway).1 ▸ proper)
    | cons first front => exact ih (List.cons.inj hway).2
  | @follow links d _ _ target rest _ proper here link passes allowed nonempty further ih =>
    cases front with
    | nil => exact .inr ((List.cons.inj hway).1 ▸ proper)
    | cons first front =>
      obtain ⟨rfl, rfl⟩ := List.cons.inj hway
      exact ih (List.append_assoc (steps target) front _)

end EvidenceExchange.FileSystem
