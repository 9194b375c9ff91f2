import EvidenceExchange.Proofs.Context.Lineage

namespace EvidenceExchange

namespace NamedContexts

/-- What a context tells after some changes. -/
def told (h : List Change) (c : Context) : Option Cancellation :=
  c.ended? (after h).tokens (after h).now

/-- Among the changes is a cancel of a context whose token is that of the given one, or one that this is
derived from. -/
def Cancelled (h : List Change) (l : Lineage) : Prop :=
  ∃ source earlier l', .cancel source :: earlier <:+ h ∧ lineage? earlier source = some l' ∧
    l'.token ∈ l.tokens

variable {h h' : List Change} {change : Change} {name : String} {c : Context} {l l' : Lineage} {p : Nat}

/-- A context has the tokens of the one that it is made from, or a token of its own before them. -/
theorem tokens_of_makes {lineage : String → Option Lineage} {now count : Nat}
    (made : change.makes lineage now count = some (name, l)) :
    l.tokens = [count] ∨ ∃ source known, lineage source = some known ∧
      (l.tokens = known.tokens ∨ l.tokens = count :: known.tokens) := by
  cases change with
  | new =>
    cases made
    exact .inl rfl
  | clone source | ofToken source | withDeadline source =>
    obtain ⟨known, named, made⟩ := Option.map_eq_some_iff.mp made
    cases made
    exact .inr ⟨source, known, named, .inl rfl⟩
  | child source =>
    obtain ⟨known, named, made⟩ := Option.map_eq_some_iff.mp made
    cases made
    exact .inr ⟨source, known, named, .inr rfl⟩
  | withTimeout source =>
    obtain ⟨known, named, made⟩ := Option.bind_eq_some_iff.mp made
    obtain ⟨_, -, made⟩ := Option.map_eq_some_iff.mp made
    cases made
    exact .inr ⟨source, known, named, .inl rfl⟩
  | cancel | advance => cases made

/-- Some change made a context with a token of its own and these tokens. -/
def Made (h : List Change) (tokens : List Nat) : Prop :=
  ∃ change earlier name l, change :: earlier <:+ h ∧
    change.makes (lineage? earlier) (after earlier).now earlier.length = some (name, l) ∧
    l.tokens = tokens ∧ tokens.head? = some earlier.length

theorem Made.mono {tokens : List Nat} (made : Made h tokens) (suffix : h <:+ h') :
    Made h' tokens := by
  obtain ⟨change, earlier, name, l, last, rest⟩ := made
  exact ⟨change, earlier, name, l, last.trans suffix, rest⟩

theorem Made.unique {rest rest' : List Nat} (made : Made h (p :: rest)) (made' : Made h (p :: rest')) :
    rest = rest' := by
  obtain ⟨change, earlier, name, l, suffix, makes, tokens, head⟩ := made
  obtain ⟨change', earlier', name', l', suffix', makes', tokens', head'⟩ := made'
  have length := Option.some.inj (head.symm.trans head')
  have last : change :: earlier <:+ change' :: earlier' :=
    List.suffix_of_suffix_length_le suffix suffix' (by simp [length])
  obtain ⟨rfl, rfl⟩ := List.cons.inj (last.eq_of_length (by simp [length]))
  cases makes.symm.trans makes'
  exact (List.cons.inj (tokens.symm.trans tokens')).2

theorem made_of_suffix (named : lineage? h name = some l) {tokens : List Nat}
    (suffix : tokens <:+ l.tokens) (some : tokens ≠ []) : Made h tokens := by
  induction h generalizing name l with
  | nil => cases named
  | cons change earlier ih =>
    have old : ∀ {name l}, lineage? earlier name = Option.some l → tokens <:+ l.tokens →
        Made (change :: earlier) tokens :=
      fun named suffix => (ih named suffix).mono (List.suffix_cons ..)
    rw [lineage?] at named
    cases makes : change.makes (lineage? earlier) (after earlier).now earlier.length with
    | none =>
      rw [makes] at named
      exact old named suffix
    | some made =>
      obtain ⟨other, l'⟩ := made
      rw [makes] at named
      change (if other = name then _ else _) = _ at named
      split at named
      next =>
        cases named
        have own : tokens = l.tokens → l.tokens.head? = Option.some earlier.length →
            Made (change :: earlier) tokens := by
          rintro rfl head
          exact ⟨change, earlier, other, l, List.suffix_refl _, makes, rfl, head⟩
        obtain root | ⟨source, known, named', same | derived⟩ := tokens_of_makes makes
        · rw [root] at own suffix
          obtain whole | nothing := List.suffix_cons_iff.mp suffix
          · exact own whole rfl
          · exact absurd (List.suffix_nil.mp nothing) some
        · exact old named' (same ▸ suffix)
        · rw [derived] at own suffix
          obtain whole | inner := List.suffix_cons_iff.mp suffix
          · exact own whole rfl
          · exact old named' inner
      next => exact old named suffix

/-- A token that two contexts have is derived from the same ones in both. -/
theorem covers_of_token_mem {other : String} (suffix : h <:+ h') (named : lineage? h name = some l)
    (named' : lineage? h' other = some l') (mem : l'.token ∈ l.tokens) : l'.Covers l := by
  obtain ⟨before, rest, tokens⟩ := List.append_of_mem mem
  obtain ⟨rest', tokens'⟩ := l'.tokens_eq_cons
  have within : l'.token :: rest <:+ l.tokens := ⟨before, tokens.symm⟩
  have made := (made_of_suffix named within (List.cons_ne_nil _ _)).mono suffix
  have made' := made_of_suffix named' (List.suffix_refl _) (tokens' ▸ List.cons_ne_nil _ _)
  rw [tokens'] at made'
  rw [made.unique made', ← tokens'] at within
  exact within

/-- A context of before tells after some changes that it was cancelled, or that its deadline has passed,
or neither. -/
structure Tells (h : List Change) (l : Lineage) (told : Option Cancellation) : Prop where
  cancelled : told = some .cancelled ↔ Cancelled h l
  exceeded : told = some .deadlineExceeded ↔ ¬Cancelled h l ∧ l.Overdue (after h).now
  going : told = none ↔ ¬Cancelled h l ∧ ¬l.Overdue (after h).now

theorem numbers_biUnique (h : List Change) : Relator.BiUnique (Numbers h) :=
  ⟨fun _ _ _ numbers other => (numbers.eq_iff other).mpr rfl,
    fun _ _ _ numbers other => (numbers.eq_iff other).mp rfl⟩

theorem Standing.isCancelled_iff (standing : Standing h c l) :
    (after h).tokens.isCancelled c.token ↔ Cancelled h l := by
  have ids : (after h).tokens.isCancelled c.token ↔
      ∃ i ∈ c.token.id :: c.token.ancestors, i ∈ (after h).tokens.cancelled := by
    simp [Tokens.isCancelled]
  rw [ids]
  constructor
  · rintro ⟨i, mem, cancelled⟩
    obtain ⟨source, earlier, l', suffix, named, numbers⟩ := ((traced h).cancelled i).mp cancelled
    have token := (List.rel_mem (numbers_biUnique h) (numbers.mono ((List.suffix_cons ..).trans suffix))
      standing.1).mp mem
    exact ⟨source, earlier, l', suffix, named, token⟩
  · rintro ⟨source, earlier, l', suffix, named, token⟩
    obtain ⟨c', l'', -, named', standing'⟩ | ⟨-, unnamed⟩ := rel_cases ((traced earlier).known source)
    · cases named.symm.trans named'
      have numbers := standing'.numbers_token
      have mem := (List.rel_mem (numbers_biUnique h)
        (numbers.mono ((List.suffix_cons ..).trans suffix)) standing.1).mpr token
      exact ⟨_, mem, ((traced h).cancelled _).mpr ⟨source, earlier, l', suffix, named, numbers⟩⟩
    · cases named.symm.trans unnamed

theorem Standing.tells (standing : Standing h c l) : Tells h l (told h c) := by
  have cancelled := standing.isCancelled_iff
  have overdue : c.deadline.any (·.nanos ≤ (Instant.ofMillis (after h).now).nanos) ↔
      l.Overdue (after h).now := by
    unfold Lineage.Overdue
    rw [← standing.2]
    cases c.deadline <;> simp
  unfold told Context.ended?
  by_cases ends : (after h).tokens.isCancelled c.token
  · have holds := cancelled.mp ends
    rw [if_pos ends]
    exact ⟨by simp [holds], by simp [holds], by simp [holds]⟩
  · have going := mt cancelled.mpr ends
    rw [if_neg ends]
    by_cases late : l.Overdue (after h).now
    · rw [if_pos (overdue.mpr late)]
      exact ⟨by simp [going], by simp [going, late], by simp [late]⟩
    · rw [if_neg (mt overdue.mp late)]
      exact ⟨by simp [going], by simp [late], by simp [going, late]⟩

theorem Cancelled.mono (cancelled : Cancelled h l) (suffix : h <:+ h') : Cancelled h' l := by
  obtain ⟨source, earlier, l', last, named, mem⟩ := cancelled
  exact ⟨source, earlier, l', last.trans suffix, named, mem⟩

theorem Cancelled.cancel_iff {source : String} (suffix : h <:+ h') (known : lineage? h name = some l)
    (named : lineage? h' source = some l') (apart : ¬l'.Covers l) :
    Cancelled (.cancel source :: h') l ↔ Cancelled h' l := by
  constructor
  · rintro ⟨source', earlier, l'', last, named', mem⟩
    obtain ⟨same, rfl⟩ | last := cancel_suffix_cons.mp last
    · cases same
      cases named.symm.trans named'
      exact absurd (covers_of_token_mem suffix known named mem) apart
    · exact ⟨source', earlier, l'', last, named', mem⟩
  · exact fun cancelled => cancelled.mono (List.suffix_cons ..)

theorem now_after_cancel (h : List Change) (source : String) :
    (after (.cancel source :: h)).now = (after h).now := by
  have turn := turn_after h (.cancel source)
  generalize after (.cancel source :: h) = s' at turn
  cases turn with
  | makes made => cases made
  | cancels | fails => rfl

/-- What a context tells at any time after it was made: that it is cancelled if so far a context was
cancelled whose token it has or has derived its own from, and else that its deadline has passed from the
first of those deadlines on that were set on the way to it. So a cancel of a context with another token,
which it has not derived its own from, does not matter to it, a deadline only gets earlier, and an ended
context stays ended, and cancelled if it was. -/
theorem told_of_history (before : List Change) (name : String) (c : Context)
    (found : (after before).find? name = some c) :
    ∃ l, lineage? before name = some l ∧
      (∀ more, Tells (more ++ before) l (told (more ++ before) c)) ∧
      (∀ more source l', lineage? (more ++ before) source = some l' → ¬l'.Covers l →
        told (.cancel source :: (more ++ before)) c = told (more ++ before) c) ∧
      (∀ more other c' l', (after (more ++ before)).find? other = some c' →
        lineage? (more ++ before) other = some l' → l.Keeps l' →
        ∀ d, c.deadline = some d → ∃ d', c'.deadline = some d' ∧ d'.nanos ≤ d.nanos) ∧
      ∀ more later cause, told (more ++ before) c = some cause →
        told (later ++ (more ++ before)) c ≠ none ∧
          (cause = .cancelled → told (later ++ (more ++ before)) c = some .cancelled) := by
  obtain ⟨_, l, found', named, standing⟩ | ⟨missing, -⟩ := rel_cases ((traced before).known name)
  rotate_left
  · cases found.symm.trans missing
  cases found.symm.trans found'
  have tells : ∀ more, Tells (more ++ before) l (told (more ++ before) c) :=
    fun more => (standing.mono (List.suffix_append more before)).tells
  refine ⟨l, named, tells, ?_, ?_, ?_⟩
  · intro more source l' named' apart
    have cancel := Cancelled.cancel_iff (List.suffix_append more before) named named' apart
    have now := now_after_cancel (more ++ before) source
    have later := tells (.cancel source :: more)
    rw [List.cons_append] at later
    have earlier := tells more
    cases told : told (more ++ before) c with
    | none =>
      have going := earlier.going.mp told
      exact later.going.mpr ⟨mt cancel.mp going.1, now ▸ going.2⟩
    | some cause =>
      cases cause with
      | cancelled => exact later.cancelled.mpr (cancel.mpr (earlier.cancelled.mp told))
      | deadlineExceeded =>
        have exceeded := earlier.exceeded.mp told
        exact later.exceeded.mpr ⟨mt cancel.mp exceeded.1, now ▸ exceeded.2⟩
  · intro more other c' l' found' named' keeps d limited
    have first := standing.2
    rw [limited] at first
    obtain ⟨e, first', le⟩ := keeps.firstDeadline_le first.symm
    obtain ⟨c'', l'', found'', named'', standing'⟩ | ⟨missing, -⟩ :=
      rel_cases ((traced (more ++ before)).known other)
    · cases found'.symm.trans found''
      cases named'.symm.trans named''
      obtain ⟨d', limited', rfl⟩ := Option.map_eq_some_iff.mp (standing'.2.trans first')
      exact ⟨d', limited', le⟩
    · cases found'.symm.trans missing
  · intro more later cause ended
    have suffix := List.suffix_append later (more ++ before)
    have earlier := tells more
    have after := tells (later ++ more)
    rw [List.append_assoc] at after
    have keeps : Cancelled (more ++ before) l → Cancelled (later ++ (more ++ before)) l :=
      fun cancelled => cancelled.mono suffix
    refine ⟨fun going => ?_, ?_⟩
    · obtain ⟨alive, early⟩ := after.going.mp going
      cases cause with
      | cancelled => exact alive (keeps (earlier.cancelled.mp ended))
      | deadlineExceeded =>
        obtain ⟨-, d, first, le⟩ := earlier.exceeded.mp ended
        have now := (after_le_of_suffix suffix).2
        refine early ⟨d, first, le.trans ?_⟩
        exact Nat.mul_le_mul_right _ now
    · rintro rfl
      exact after.cancelled.mpr (keeps (earlier.cancelled.mp ended))

/-- A child ends at the deadline of its parent and is cancelled with it, and of its own cancel neither
the parent nor a sibling takes notice. -/
theorem told_of_history_child :
    let before : List Change :=
      [.child "a" "c", .child "a" "b", .withDeadline "a" "a" (.ofMillis 3), .new "a"]
    let a : Context := ⟨⟨0, []⟩, some (.ofMillis 3)⟩
    let b : Context := ⟨⟨1, [0]⟩, some (.ofMillis 3)⟩
    let c : Context := ⟨⟨2, [0]⟩, some (.ofMillis 3)⟩
    (after before).find? "a" = some a ∧ (after before).find? "b" = some b ∧
      (after before).find? "c" = some c ∧
      told (.advance (.ofMillis 3) :: before) b = some .deadlineExceeded ∧
      told (.cancel "a" :: .advance (.ofMillis 3) :: before) b = some .cancelled ∧
      told (.cancel "b" :: before) a = told before a ∧
      told (.cancel "b" :: before) c = told before c := by
  intro before a b c
  have foundA : (after before).find? "a" = some a := rfl
  have foundB : (after before).find? "b" = some b := rfl
  have foundC : (after before).find? "c" = some c := rfl
  obtain ⟨_, namedA, -, untouchedA, -⟩ := told_of_history before "a" a foundA
  obtain ⟨_, namedB, tells, -⟩ := told_of_history before "b" b foundB
  obtain ⟨_, namedC, -, untouchedC, -⟩ := told_of_history before "c" c foundC
  cases Option.some.inj (namedA.symm.trans rfl)
  cases Option.some.inj (namedB.symm.trans rfl)
  cases Option.some.inj (namedC.symm.trans rfl)
  refine ⟨foundA, foundB, foundC,
    (tells [.advance (.ofMillis 3)]).exceeded.mpr ⟨?_, ⟨3000000, rfl, by decide⟩⟩,
    (tells [.cancel "a", .advance (.ofMillis 3)]).cancelled.mpr
      ⟨"a", _, _, List.suffix_refl _, rfl, by decide⟩,
    untouchedA [] "b" _ namedB (Lineage.not_covers_parent _ _),
    untouchedC [] "b" _ namedB (Lineage.not_covers_sibling _ (by decide))⟩
  rintro ⟨source, earlier, l', suffix, -⟩
  have mem := suffix.subset (List.mem_cons_self ..)
  simp [before] at mem

end NamedContexts

end EvidenceExchange
