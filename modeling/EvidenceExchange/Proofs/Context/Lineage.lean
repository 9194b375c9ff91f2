import EvidenceExchange.Context.Named
import Mathlib

namespace EvidenceExchange

/-- How a context came about. A token goes by the number of changes before the one that made it. -/
inductive Lineage where
  | new (token : Nat)
  | clone (source : Lineage)
  | child (source : Lineage) (token : Nat)
  | ofToken (source : Lineage)
  | withDeadline (source : Lineage) (deadline : Instant)

namespace Lineage

def token : Lineage → Nat
  | new token | child _ token => token
  | clone source | ofToken source | withDeadline source _ => source.token

/-- The token of the context and those that it is derived from, the nearest first. -/
def tokens : Lineage → List Nat
  | new token => [token]
  | child source token => token :: source.tokens
  | clone source | ofToken source | withDeadline source _ => source.tokens

/-- The deadlines set since the context was last made without one. -/
def deadlines : Lineage → List Instant
  | new _ | ofToken _ => []
  | clone source | child source _ => source.deadlines
  | withDeadline source deadline => deadline :: source.deadlines

def firstDeadline (l : Lineage) : Option Nat := (l.deadlines.map Instant.nanos).min?

def Overdue (l : Lineage) (now : Nat) : Prop :=
  ∃ d, l.firstDeadline = some d ∧ d ≤ (Instant.ofMillis now).nanos

/-- The token of one context is that of another one or a token which that one is derived from. -/
def Covers (l other : Lineage) : Prop := l.tokens <:+ other.tokens

/-- The one context is made from the other without dropping its deadline. -/
inductive Keeps (l : Lineage) : Lineage → Prop where
  | self : Keeps l l
  | clone {source : Lineage} (keeps : Keeps l source) : Keeps l (clone source)
  | child {source : Lineage} (keeps : Keeps l source) (token : Nat) : Keeps l (child source token)
  | withDeadline {source : Lineage} (keeps : Keeps l source) (deadline : Instant) :
    Keeps l (withDeadline source deadline)

theorem tokens_eq_cons (l : Lineage) : ∃ rest, l.tokens = l.token :: rest := by
  induction l with
  | new => exact ⟨[], rfl⟩
  | child source => exact ⟨source.tokens, rfl⟩
  | clone _ ih | ofToken _ ih | withDeadline _ _ ih => exact ih

theorem not_covers_parent (l : Lineage) (token : Nat) : ¬(child l token).Covers l := by
  intro covers
  have longer := covers.length_le
  rw [tokens, List.length_cons] at longer
  omega

theorem not_covers_sibling (l : Lineage) {token other : Nat} (ne : token ≠ other) :
    ¬(child l token).Covers (child l other) := by
  intro covers
  have same := covers.eq_of_length rfl
  exact ne (List.cons.inj same).1

theorem Keeps.deadlines_suffix {l other : Lineage} (keeps : l.Keeps other) :
    l.deadlines <:+ other.deadlines := by
  induction keeps with
  | self => exact List.suffix_refl _
  | clone _ ih | child _ _ ih => exact ih
  | withDeadline _ deadline ih => exact ih.trans (List.suffix_cons deadline _)

theorem Keeps.firstDeadline_le {l other : Lineage} (keeps : l.Keeps other) {d : Nat}
    (first : l.firstDeadline = some d) : ∃ e, other.firstDeadline = some e ∧ e ≤ d := by
  have mem := (keeps.deadlines_suffix.map Instant.nanos).subset (List.min?_mem first)
  obtain ⟨e, least⟩ := Option.isSome_iff_exists.mp (List.isSome_min?_of_mem mem)
  exact ⟨e, least, (List.min?_eq_some_iff.mp least).2 _ mem⟩

end Lineage

namespace NamedContexts

/-- The context that a change makes, if it makes one, given how those of before came about. -/
def Change.makes (change : Change) (lineage : String → Option Lineage) (now count : Nat) :
    Option (String × Lineage) :=
  match change with
  | .new name => some (name, .new count)
  | .clone source name => (lineage source).map fun l => (name, .clone l)
  | .child source name => (lineage source).map fun l => (name, .child l count)
  | .ofToken source name => (lineage source).map fun l => (name, .ofToken l)
  | .withDeadline source name deadline =>
    (lineage source).map fun l => (name, .withDeadline l deadline)
  | .withTimeout source name timeout =>
    (lineage source).bind fun l =>
      ((Instant.ofMillis now).add? timeout).map fun deadline => (name, .withDeadline l deadline)
  | .cancel _ | .advance _ => none

/-- What changes leave, of which the last one stands first. One that fails changes nothing. -/
def after : List Change → NamedContexts
  | [] => empty
  | change :: earlier => ((after earlier).apply change).getD (after earlier)

/-- How the context came about that has a name after some changes. -/
def lineage? : List Change → String → Option Lineage
  | [], _ => none
  | change :: earlier, name =>
    match change.makes (lineage? earlier) (after earlier).now earlier.length with
    | some (made, l) => if made = name then some l else lineage? earlier name
    | none => lineage? earlier name

variable {s : NamedContexts} {h h' : List Change} {change : Change} {name : String} {c : Context}
  {ts : Tokens} {l l' : Lineage} {i j p q : Nat}

/-- The context that a change makes, if it makes one, and the tokens that there are then. -/
def made? (s : NamedContexts) : Change → Option (String × Context × Tokens)
  | .new name => some (name, .ofToken s.tokens.new.1, s.tokens.new.2)
  | .clone source name => (s.find? source).map fun c => (name, c, s.tokens)
  | .child source name => (s.find? source).map fun c => (name, c.child s.tokens)
  | .ofToken source name => (s.find? source).map fun c => (name, .ofToken c.token, s.tokens)
  | .withDeadline source name deadline =>
    (s.find? source).map fun c => (name, c.withDeadline deadline, s.tokens)
  | .withTimeout source name timeout =>
    (s.find? source).bind fun c =>
      (c.withTimeout? s.now timeout).map fun c => (name, c, s.tokens)
  | .cancel _ | .advance _ => none

/-- All that a change can do. -/
inductive Turn (s : NamedContexts) : Change → NamedContexts → Prop where
  | makes {change : Change} {name : String} {c : Context} {ts : Tokens}
    (made : s.made? change = some (name, c, ts)) : Turn s change ({ s with tokens := ts }.put name c)
  | cancels {source : String} {c : Context} (found : s.find? source = some c) :
    Turn s (.cancel source) { s with tokens := c.cancel s.tokens }
  | advances (length : Duration) :
    Turn s (.advance length) { s with now := ((Instant.ofMillis s.now).afterWait length).tick }
  | fails {change : Change} (made : s.made? change = none)
    (missing : ∀ source, change = .cancel source → s.find? source = none) : Turn s change s

/-- A change that makes a context cancels no token. -/
theorem tokens_of_made (made : s.made? change = some (name, c, ts)) :
    s.tokens.fresh ≤ ts.fresh ∧ ts.cancelled = s.tokens.cancelled := by
  cases change with
  | new =>
    cases made
    exact ⟨Nat.le_succ _, rfl⟩
  | clone source | ofToken source | withDeadline source =>
    obtain ⟨_, -, made⟩ := Option.map_eq_some_iff.mp made
    cases made
    exact ⟨le_rfl, rfl⟩
  | child source =>
    obtain ⟨_, -, made⟩ := Option.map_eq_some_iff.mp made
    cases made
    exact ⟨Nat.le_succ _, rfl⟩
  | withTimeout source =>
    obtain ⟨_, -, made⟩ := Option.bind_eq_some_iff.mp made
    obtain ⟨_, -, made⟩ := Option.map_eq_some_iff.mp made
    cases made
    exact ⟨le_rfl, rfl⟩
  | cancel | advance => cases made

theorem turn_apply (s : NamedContexts) (change : Change) :
    s.Turn change ((s.apply change).getD s) := by
  cases change with
  | new name => exact .makes (c := .ofToken s.tokens.new.1) rfl
  | clone source | child source | ofToken source | withDeadline source =>
    cases found : s.find? source with
    | none =>
      simp only [apply, derive, found]
      exact .fails (by simp [made?, found]) (fun _ other => by cases other)
    | some c =>
      simp only [apply, derive, found]
      exact .makes (Option.map_eq_some_iff.mpr ⟨c, found, rfl⟩)
  | withTimeout source name timeout =>
    cases found : s.find? source with
    | none =>
      simp only [apply, found]
      exact .fails (by simp [made?, found]) (fun _ other => by cases other)
    | some c =>
      cases limited : c.withTimeout? s.now timeout with
      | none =>
        simp only [apply, found, limited]
        have nothing : s.made? (.withTimeout source name timeout) = none := by
          rw [made?, found, Option.bind_some, limited, Option.map_none]
        exact .fails nothing (fun _ other => by cases other)
      | some d =>
        simp only [apply, found, limited]
        exact .makes (Option.bind_eq_some_iff.mpr ⟨c, found, Option.map_eq_some_iff.mpr ⟨d, limited, rfl⟩⟩)
  | cancel source =>
    cases found : s.find? source with
    | none =>
      simp only [apply, found]
      exact .fails rfl (fun _ same => Change.cancel.inj same ▸ found)
    | some c =>
      simp only [apply, found]
      exact .cancels found
  | advance length =>
    simp only [apply, Option.getD_some]
    exact .advances length

theorem turn_after (h : List Change) (change : Change) :
    (after h).Turn change (after (change :: h)) :=
  turn_apply (after h) change

theorem Turn.eq_put {s' : NamedContexts} (turn : s.Turn change s')
    (made : s.made? change = some (name, c, ts)) : s' = { s with tokens := ts }.put name c := by
  cases turn with
  | makes made' =>
    cases made.symm.trans made'
    rfl
  | cancels | advances => cases made
  | fails nothing => cases made.symm.trans nothing

theorem Turn.contexts_eq {s' : NamedContexts} (turn : s.Turn change s')
    (nothing : s.made? change = none) : s'.contexts = s.contexts := by
  cases turn with
  | makes made => cases made.symm.trans nothing
  | cancels | advances | fails => rfl

theorem Turn.fresh_le {s' : NamedContexts} (turn : s.Turn change s') :
    s.tokens.fresh ≤ s'.tokens.fresh := by
  cases turn with
  | makes made => exact (tokens_of_made made).1
  | cancels | advances | fails => exact le_rfl

theorem Turn.now_le {s' : NamedContexts} (turn : s.Turn change s') : s.now ≤ s'.now := by
  cases turn with
  | advances length =>
    simp only [Instant.tick, Instant.afterWait, Instant.ofMillis]
    omega
  | makes | cancels | fails => exact le_rfl

theorem after_le_of_suffix (suffix : h <:+ h') :
    (after h).tokens.fresh ≤ (after h').tokens.fresh ∧ (after h).now ≤ (after h').now := by
  obtain ⟨later, rfl⟩ := suffix
  induction later with
  | nil => exact ⟨le_rfl, le_rfl⟩
  | cons change later ih =>
    have turn := turn_after (later ++ h) change
    exact ⟨ih.1.trans turn.fresh_le, ih.2.trans turn.now_le⟩

/-- The token with one number was made by the change before which there were so many others. -/
def Numbers (h : List Change) (i p : Nat) : Prop :=
  ∃ change earlier, change :: earlier <:+ h ∧ earlier.length = p ∧ (after earlier).tokens.fresh = i ∧
    (after (change :: earlier)).tokens.fresh = i + 1

theorem Numbers.mono (numbers : Numbers h i p) (suffix : h <:+ h') : Numbers h' i p := by
  obtain ⟨change, earlier, made, rest⟩ := numbers
  exact ⟨change, earlier, made.trans suffix, rest⟩

theorem Numbers.lt (numbers : Numbers h i p) (later : Numbers h j q) (lt : p < q) : i < j := by
  obtain ⟨change, earlier, made, rfl, rfl, next⟩ := numbers
  obtain ⟨change', earlier', made', rfl, rfl, -⟩ := later
  have before : change :: earlier <:+ earlier' :=
    List.suffix_of_suffix_length_le made ((List.suffix_cons ..).trans made') lt
  have fresh := (after_le_of_suffix before).1
  omega

theorem Numbers.eq_iff (numbers : Numbers h i p) (other : Numbers h j q) : i = j ↔ p = q := by
  have same : p = q → i = j := by
    rintro rfl
    obtain ⟨change, earlier, made, length, rfl, -⟩ := numbers
    obtain ⟨change', earlier', made', length', rfl, -⟩ := other
    have suffix : earlier <:+ earlier' := List.suffix_of_suffix_length_le
      ((List.suffix_cons ..).trans made) ((List.suffix_cons ..).trans made') (by omega)
    rw [suffix.eq_of_length (by omega)]
  have before : p < q → i < j := numbers.lt other
  have behind : q < p → j < i := other.lt numbers
  omega

/-- A context is as its lineage says. -/
def Standing (h : List Change) (c : Context) (l : Lineage) : Prop :=
  List.Forall₂ (Numbers h) (c.token.id :: c.token.ancestors) l.tokens ∧
    c.deadline.map Instant.nanos = l.firstDeadline

theorem Standing.mono (standing : Standing h c l) (suffix : h <:+ h') : Standing h' c l :=
  ⟨standing.1.imp fun _ _ numbers => numbers.mono suffix, standing.2⟩

theorem Standing.numbers_token (standing : Standing h c l) : Numbers h c.token.id l.token := by
  obtain ⟨rest, tokens⟩ := l.tokens_eq_cons
  have all := standing.1
  rw [tokens] at all
  exact (List.forall₂_cons.mp all).1

theorem Standing.withDeadline (standing : Standing h c l) (d : Instant) :
    Standing h (c.withDeadline d) (.withDeadline l d) := by
  refine ⟨standing.1, ?_⟩
  have earliest := standing.2
  unfold Lineage.firstDeadline at earliest ⊢
  rw [Lineage.deadlines, List.map_cons, List.min?_cons, ← earliest]
  unfold Context.withDeadline Instant.min
  cases c.deadline with
  | none => rfl
  | some e =>
    simp only [Option.map_some, Option.getD_some, Option.elim_some, Option.some.injEq]
    split <;> omega

/-- What a change makes, and what it is said to make. -/
def Agree (h : List Change) (made : String × Context × Tokens) (said : String × Lineage) : Prop :=
  made.1 = said.1 ∧ Standing h made.2.1 said.2

theorem rel_cases {α β : Type} {r : α → β → Prop} {a : Option α} {b : Option β}
    (rel : Option.Rel r a b) : (∃ x y, a = some x ∧ b = some y ∧ r x y) ∨ a = none ∧ b = none := by
  cases rel with
  | some related => exact .inl ⟨_, _, rfl, rfl, related⟩
  | none => exact .inr ⟨rfl, rfl⟩

theorem rel_makes (change : Change) {lineage : String → Option Lineage}
    (known : ∀ name, Option.Rel (Standing h) ((after h).find? name) (lineage name)) :
    Option.Rel (Agree (change :: h)) ((after h).made? change)
      (change.makes lineage (after h).now h.length) := by
  have suffix := List.suffix_cons change h
  cases change with
  | new name =>
    have numbers : Numbers (.new name :: h) (after h).tokens.fresh h.length :=
      ⟨_, h, List.suffix_refl _, rfl, rfl, rfl⟩
    exact .some ⟨rfl, .cons numbers .nil, rfl⟩
  | clone source name =>
    obtain ⟨c, l, found, named, standing⟩ | ⟨missing, unnamed⟩ := rel_cases (known source)
    · simp only [made?, Change.makes, found, named, Option.map_some]
      exact .some ⟨rfl, standing.mono suffix⟩
    · simp only [made?, Change.makes, missing, unnamed, Option.map_none]
      exact .none
  | child source name =>
    obtain ⟨c, l, found, named, standing⟩ | ⟨missing, unnamed⟩ := rel_cases (known source)
    · have numbers : Numbers (.child source name :: h) (after h).tokens.fresh h.length := by
        refine ⟨_, h, List.suffix_refl _, rfl, rfl, ?_⟩
        simp only [after, apply, found]
        rfl
      have standing' := standing.mono suffix
      simp only [made?, Change.makes, found, named, Option.map_some]
      exact .some ⟨rfl, .cons numbers standing'.1, standing'.2⟩
    · simp only [made?, Change.makes, missing, unnamed, Option.map_none]
      exact .none
  | ofToken source name =>
    obtain ⟨c, l, found, named, standing⟩ | ⟨missing, unnamed⟩ := rel_cases (known source)
    · simp only [made?, Change.makes, found, named, Option.map_some]
      exact .some ⟨rfl, (standing.mono suffix).1, rfl⟩
    · simp only [made?, Change.makes, missing, unnamed, Option.map_none]
      exact .none
  | withDeadline source name deadline =>
    obtain ⟨c, l, found, named, standing⟩ | ⟨missing, unnamed⟩ := rel_cases (known source)
    · simp only [made?, Change.makes, found, named, Option.map_some]
      exact .some ⟨rfl, (standing.mono suffix).withDeadline deadline⟩
    · simp only [made?, Change.makes, missing, unnamed, Option.map_none]
      exact .none
  | withTimeout source name timeout =>
    obtain ⟨c, l, found, named, standing⟩ | ⟨missing, unnamed⟩ := rel_cases (known source)
    · rw [made?, Change.makes, found, named, Option.bind_some, Option.bind_some, Context.withTimeout?,
        Option.map_map]
      generalize (Instant.ofMillis (after h).now).add? timeout = limited
      cases limited with
      | none => exact .none
      | some deadline => exact .some ⟨rfl, (standing.mono suffix).withDeadline deadline⟩
    · simp only [made?, Change.makes, missing, unnamed, Option.bind_none]
      exact .none
  | cancel | advance => exact .none

theorem find?_put (s : NamedContexts) (name other : String) (c : Context) :
    (s.put name c).find? other = if name = other then some c else s.find? other := by
  unfold find? put
  rw [List.lookup_cons]
  by_cases same : name = other
  · subst same
    simp
  · rw [if_neg same, beq_false_of_ne (Ne.symm same)]
    change List.lookup other (s.contexts.filter (·.1 != name)) = List.lookup other s.contexts
    induction s.contexts with
    | nil => rfl
    | cons entry rest ih =>
      rw [List.filter_cons]
      by_cases replaced : entry.1 = name
      · have differs : (other == entry.1) = false := beq_false_of_ne (replaced ▸ Ne.symm same)
        rw [List.lookup_cons, differs, if_neg (by simp [replaced]), ih]
      · rw [if_pos (by simp [replaced]), List.lookup_cons, List.lookup_cons, ih]

/-- Each context there is by now is as its lineage says, and the tokens cancelled are those of the contexts
that were cancelled. -/
structure Traced (h : List Change) : Prop where
  known : ∀ name, Option.Rel (Standing h) ((after h).find? name) (lineage? h name)
  cancelled : ∀ i, i ∈ (after h).tokens.cancelled ↔
    ∃ source earlier l, .cancel source :: earlier <:+ h ∧ lineage? earlier source = some l ∧
      Numbers earlier i l.token

theorem Traced.known_cons (traced : Traced h) (change : Change) (other : String) :
    Option.Rel (Standing (change :: h)) ((after (change :: h)).find? other)
      (lineage? (change :: h) other) := by
  have keeps : Option.Rel (Standing (change :: h)) ((after h).find? other) (lineage? h other) := by
    obtain ⟨c, l, found, named, standing⟩ | ⟨missing, unnamed⟩ := rel_cases (traced.known other)
    · rw [found, named]
      exact .some (standing.mono (List.suffix_cons ..))
    · rw [missing, unnamed]
      exact .none
  have turn := turn_after h change
  rw [lineage?]
  obtain ⟨⟨name, c, ts⟩, ⟨_, l⟩, does, said, rfl, standing⟩ | ⟨nothing, unsaid⟩ :=
    rel_cases (rel_makes change traced.known)
  · rw [turn.eq_put does, find?_put, said]
    change Option.Rel _ _ (if name = other then _ else _)
    split
    next => exact .some standing
    next => exact keeps
  · rw [find?, turn.contexts_eq nothing, unsaid]
    exact keeps

theorem cancel_suffix_cons {source : String} {earlier : List Change} :
    .cancel source :: earlier <:+ change :: h ↔
      .cancel source = change ∧ earlier = h ∨ .cancel source :: earlier <:+ h := by
  rw [List.suffix_cons_iff, List.cons.injEq]

theorem Traced.cancelled_cons (traced : Traced h) (change : Change) (i : Nat) :
    i ∈ (after (change :: h)).tokens.cancelled ↔
      ∃ source earlier l, .cancel source :: earlier <:+ change :: h ∧
        lineage? earlier source = some l ∧ Numbers earlier i l.token := by
  have turn := turn_after h change
  have others : (∀ source, change = .cancel source → lineage? h source = none) →
      ((∃ source earlier l, .cancel source :: earlier <:+ change :: h ∧
        lineage? earlier source = some l ∧ Numbers earlier i l.token) ↔
      i ∈ (after h).tokens.cancelled) := by
    intro unnamed
    rw [traced.cancelled]
    constructor
    · rintro ⟨source, earlier, l, suffix, named, numbers⟩
      obtain ⟨rfl, rfl⟩ | suffix := cancel_suffix_cons.mp suffix
      · cases named.symm.trans (unnamed source rfl)
      · exact ⟨source, earlier, l, suffix, named, numbers⟩
    · rintro ⟨source, earlier, l, suffix, named, numbers⟩
      exact ⟨source, earlier, l, cancel_suffix_cons.mpr (.inr suffix), named, numbers⟩
  generalize after (change :: h) = s' at turn
  cases turn with
  | makes made =>
    rw [others fun source same => by cases same; cases made]
    change i ∈ _ ↔ _
    rw [← (tokens_of_made made).2]
    rfl
  | advances => rw [others fun _ same => by cases same]
  | fails nothing missing =>
    rw [others]
    intro source same
    obtain ⟨c, l, found, -⟩ | ⟨-, unnamed⟩ := rel_cases (traced.known source)
    · cases found.symm.trans (missing source same)
    · exact unnamed
  | @cancels source c found =>
    obtain ⟨_, l, found', named, standing⟩ | ⟨missing, -⟩ := rel_cases (traced.known source)
    · cases found.symm.trans found'
      have ids : i ∈ (c.cancel (after h).tokens).cancelled ↔
          i = c.token.id ∨ i ∈ (after h).tokens.cancelled := List.mem_cons
      have own : i = c.token.id ↔ Numbers h i l.token := by
        constructor
        · rintro rfl
          exact standing.numbers_token
        · intro numbers
          exact (numbers.eq_iff standing.numbers_token).mpr rfl
      rw [ids, own, traced.cancelled]
      constructor
      · rintro (numbers | ⟨source', earlier, l', suffix, named', numbers⟩)
        · exact ⟨source, h, l, List.suffix_refl _, named, numbers⟩
        · exact ⟨source', earlier, l', cancel_suffix_cons.mpr (.inr suffix), named', numbers⟩
      · rintro ⟨source', earlier, l', suffix, named', numbers⟩
        obtain ⟨same, rfl⟩ | suffix := cancel_suffix_cons.mp suffix
        · cases same
          cases named.symm.trans named'
          exact .inl numbers
        · exact .inr ⟨source', earlier, l', suffix, named', numbers⟩
    · cases found.symm.trans missing

theorem traced (h : List Change) : Traced h := by
  induction h with
  | nil =>
    refine ⟨fun _ => .none, fun i => ⟨fun mem => (List.not_mem_nil mem).elim, ?_⟩⟩
    rintro ⟨source, earlier, l, suffix, -⟩
    cases List.suffix_nil.mp suffix
  | cons change h ih => exact ⟨ih.known_cons change, ih.cancelled_cons change⟩

end NamedContexts

end EvidenceExchange
