import EvidenceExchange.Proofs.Encounter.Stages

namespace EvidenceExchange

theorem Sender.move_of_isOver {d : Sender} (h : d.isOver = true) (grain : Nat) (ts : Tokens)
    (now : Nat) (s : Sockets) : d.move grain ts now s = none := by
  unfold isOver at h
  split at h
  next phase => simp only [move, phase]
  next => cases h

namespace Exchange

/-- The call of an actor that now stands so ended at the instant. -/
def Ended (y : Exchange) (i : Nat) (role : Role) (t : Nat) : Prop :=
  ∃ a, y.actors[i]? = some a ∧ a.role = role ∧ a.endedAt = some t

namespace Encounter

variable {x : Exchange} (e : Encounter x)

/-- Some attempt would come strictly between the start of the receiver and its deadline. -/
def Meets : Prop := ∃ k < e.rounds, e.opens < e.attemptAt k ∧ e.attemptAt k < e.closes

/-- No attempt comes from the start of the receiver to its deadline. -/
def Misses : Prop := ∀ k < e.rounds, e.attemptAt k < e.opens ∨ e.closes < e.attemptAt k

/-- The attempts come one period after another until one connects, or else all of them have failed. -/
def Complete (tries : List Attempt) : Prop :=
  tries = e.failures e.rounds ∨ ∃ m < e.rounds, tries = e.failures m ++ [⟨e.attemptAt m, true⟩]

/-- There are steps to come, and fuel for them. -/
def Continues (x : Exchange) (steps : Nat) (b : Nat × Exchange) : Prop :=
  steps < x.fuel ∧ ∃ mover c, Prompt mover b c

/-- Both calls have succeeded at the instant of the first attempt that connected, and the receiver has
returned the bundle of the sender. -/
def Met (tries : List Attempt) (y : Exchange) : Prop :=
  ∃ m < e.rounds, tries = e.failures m ++ [⟨e.attemptAt m, true⟩] ∧
    y.Ended e.caller (.sender (e.d.goTo (.settled (.returned (.ok ()))))) (e.attemptAt m) ∧
    y.Ended e.host (.receiver (e.r.goTo (.settled (.returned (.ok e.d.bundle))))) (e.attemptAt m)

/-- All attempts have failed, the last of them ended the call of the sender, and the deadline that of
the receiver. -/
def Missed (tries : List Attempt) (y : Exchange) : Prop :=
  tries = e.failures e.rounds ∧
    (∃ cause, y.Ended e.caller
      (.sender (e.d.goTo (.settled (.returned (.error (.connectFailed e.d.path e.rounds cause))))))
      (e.attemptAt (e.rounds - 1))) ∧
    y.Ended e.host
      (.receiver (e.r.goTo (.settled (.returned (.error (.timeout e.r.config.timeout)))))) e.closes

variable {e} {m now steps t : Nat} {y : Exchange} {p : Sender.Phase} {u : Option Nat}
  {q : Receiver.Phase} {v : Option Nat} {b : Nat × Exchange} {tries : List Attempt}

namespace View

theorem caller_ended (view : e.View y p (some t) q v) : y.Ended e.caller (.sender (e.d.goTo p)) t := by
  obtain ⟨log, calls⟩ := view.calls
  exact ⟨_, calls, rfl, rfl⟩

theorem host_ended (view : e.View y p u q (some t)) : y.Ended e.host (.receiver (e.r.goTo q)) t := by
  obtain ⟨log, hosts⟩ := view.hosts
  exact ⟨_, hosts, rfl, rfl⟩

theorem exists_nextTimer (view : e.View y p u q v)
    (timer : t ∈ e.callerTimers p ∨ t ∈ e.hostTimers q) (passes : now < t) :
    ∃ later, Clockwork.nextTimer now (clockwork.timers y) = some later :=
  Clockwork.exists_nextTimer (view.mem_timers_iff.mpr timer) passes

end View

theorem not_meets_of_missed (missed : e.MissedBefore m)
    (rest : ∀ k, m ≤ k → k < e.rounds → e.closes ≤ e.attemptAt k) : ¬ e.Meets := by
  rintro ⟨k, lt, after, before⟩
  obtain early | later := Nat.lt_or_ge k m
  · obtain le | le := missed k early <;> omega
  · have := rest k later lt
    omega

theorem not_meets_of_late (late : e.attemptAt m = e.closes) (missed : e.MissedBefore m) : ¬ e.Meets :=
  not_meets_of_missed missed fun _ le _ => late ▸ e.attemptAt_mono le

theorem not_misses_of_connected (more : m < e.rounds) (opened : e.opens ≤ e.attemptAt m)
    (early : e.attemptAt m ≤ e.closes) : ¬ e.Misses := by
  intro misses
  obtain before | after := misses m more <;> omega

namespace Calling

theorem le_rounds (calling : e.Calling m now p u) : m ≤ e.rounds := by
  cases calling with
  | starting first => exact first ▸ Nat.zero_le _
  | calling more | trying more | pausing more => exact more.le
  | exhausted cause all => exact all.le

theorem unsettled (calling : e.Calling m now p u) (more : m < e.rounds) :
    (e.d.goTo p).isOver = false := by
  cases calling with
  | starting | calling | trying | pausing => rfl
  | exhausted cause all => exact absurd more all.not_lt

end Calling

namespace Stage

/-- As long as one of the two has not given up, something is to come. -/
theorem goes_apart (view : e.View y p u q v) (calling : e.Calling m now p u)
    (awaiting : e.Awaiting now y.sockets q v) (unfinished : y.isOver = false) : Goes (now, y) := by
  intro grain pos idle
  have rests := calling.rests (view.caller_idle idle)
  have rests' := awaiting.rests (view.host_idle idle)
  cases caller : (e.d.goTo p).isOver with
  | false =>
    obtain ⟨t, timer, passes⟩ := rests.exists_timer caller
    exact view.exists_nextTimer (.inl timer) passes
  | true =>
    cases host : (e.r.goTo q).isOver with
    | false =>
      obtain ⟨t, timer, passes⟩ := rests'.exists_timer host
      exact view.exists_nextTimer (.inr timer) passes
    | true => cases unfinished.symm.trans (view.isOver_iff.mpr ⟨caller, host⟩)

/-- As long as one of the two is not done, the other or itself can move. -/
theorem goes_together (view : e.View y p u q v)
    (handover : e.Handover (e.attemptAt m) y.sockets p u q v) (opened : e.opens ≤ e.attemptAt m)
    (unfinished : y.isOver = false) : Goes (e.attemptAt m, y) := by
  intro grain pos idle
  obtain ⟨rfl, -, rfl, -⟩ := handover.over_of_idle pos
    (view.caller_idle idle (e.begins_le_attemptAt m)) (view.host_idle idle opened)
  cases unfinished.symm.trans (view.isOver_iff.mpr ⟨rfl, rfl⟩)

/-- The attempts come on time, and none is left out. -/
theorem complete_or_goes (stage : e.Stage steps tries b) :
    e.Complete tries ∨ (∃ m < e.rounds, tries = e.failures m) ∧ steps < x.fuel ∧ Goes b := by
  have fuel := e.budget_lt_fuel
  cases stage with
  | @apart m _ y _ _ _ _ view calling awaiting missed left =>
    obtain more | all := Nat.lt_or_eq_of_le calling.le_rounds
    · have unfinished : y.isOver = false := by
        refine Bool.eq_false_iff.mpr fun done => ?_
        cases (view.isOver_iff.mp done).1.symm.trans (calling.unsettled more)
      exact .inr ⟨⟨m, more, rfl⟩, by omega, goes_apart view calling awaiting unfinished⟩
    · exact .inl (.inl (all ▸ rfl))
  | @together m _ _ _ _ _ view handover more => exact .inl (.inr ⟨m, more, rfl⟩)
  | @late m _ _ _ _ _ _ view connected more => exact .inl (.inr ⟨m, more, rfl⟩)

/-- Where an attempt meets the receiver, or none comes near it, the two go on until both are done. -/
theorem done_or_goes (stage : e.Stage steps tries b) (decided : e.Meets ∨ e.Misses)
    (unfinished : b.2.isOver = false) : steps < x.fuel ∧ Goes b := by
  have fuel := e.budget_lt_fuel
  cases stage with
  | apart view calling awaiting missed left =>
    exact ⟨by omega, goes_apart view calling awaiting unfinished⟩
  | together view handover more opened early missed left =>
    exact ⟨by omega, goes_together view handover opened unfinished⟩
  | late view connected more late missed =>
    obtain meets | misses := decided
    · exact (not_meets_of_late late missed meets).elim
    · exact (not_misses_of_connected more (late ▸ e.opens_lt_closes.le) late.le misses).elim

theorem done (stage : e.Stage steps tries b) (finished : b.2.isOver = true) :
    (e.Meets → e.Met tries b.2) ∧ (e.Misses → e.Missed tries b.2) := by
  cases stage with
  | @apart m now y p u q v view calling awaiting missed left =>
    obtain ⟨sent, received⟩ := view.isOver_iff.mp finished
    cases awaiting with
    | starting | locking | reclaiming | binding | listening => cases received
    | timedOut late nobody =>
      cases calling with
      | starting | calling | trying | pausing => cases sent
      | exhausted cause all =>
        subst all
        refine ⟨fun meets => ?_, fun _ => ⟨rfl, ⟨cause, view.caller_ended⟩, view.host_ended⟩⟩
        exact (not_meets_of_missed missed (fun k le lt => absurd lt (not_lt.mpr le)) meets).elim
  | @together m y p u q v view handover more opened early missed left =>
    obtain ⟨sent, received⟩ := view.isOver_iff.mp finished
    have caller := Sender.move_of_isOver sent 1 x.tokens (e.attemptAt m) y.sockets
    have host := Receiver.move_of_isOver received 1 x.tokens (e.attemptAt m) y.sockets
    obtain ⟨rfl, rfl, rfl, rfl⟩ := handover.over_of_idle Nat.one_pos caller host
    refine ⟨fun _ => ⟨m, more, rfl, view.caller_ended, view.host_ended⟩, fun misses => ?_⟩
    exact (not_misses_of_connected more opened early.le misses).elim
  | late view connected more late missed =>
    refine ⟨fun meets => (not_meets_of_late late missed meets).elim, fun misses => ?_⟩
    exact (not_misses_of_connected more (late ▸ e.opens_lt_closes.le) late.le misses).elim

end Stage

theorem continues (goes : steps < x.fuel ∧ Goes b) : Continues x steps b :=
  ⟨goes.1, goes.2.exists_prompt⟩

/-- The clock has the fuel to bring both to the end, and whoever watches for long enough sees it. -/
theorem run_done (e : Encounter x) :
    ∃ steps tries now, PromptRun e.caller (0, x) steps tries (now, x.run) ∧
      (∀ limit, now ≤ limit → x.watch limit = x.run) ∧ e.Complete tries ∧
      (e.Meets → e.Met tries x.run) ∧ (e.Misses → e.Missed tries x.run) := by
  obtain ⟨steps, tries, run, stops⟩ :=
    PromptRun.clockwork (.refl : PromptRun e.caller (0, x) 0 [] _) e.view.undisturbed x.fuel
  obtain ⟨now, ran⟩ : ∃ now, clockwork.run x.fuel (0, x) = (now, x.run) := ⟨_, rfl⟩
  rw [ran] at run stops
  have stage := Stage.run run
  have stuck : ¬ (steps < x.fuel ∧ Goes (now, x.run)) := by
    rintro ⟨lt, goes⟩
    obtain spent | stops := stops
    · omega
    · exact goes.step_ne_none stops
  have finished : e.Meets ∨ e.Misses → x.run.isOver = true := by
    intro decided
    by_contra unfinished
    exact stuck (stage.done_or_goes decided (Bool.eq_false_iff.mpr unfinished))
  have complete := stage.complete_or_goes.resolve_right fun goes => stuck goes.2
  have watched : ∀ limit, now ≤ limit → x.watch limit = x.run := by
    intro limit within
    have ends : (clockwork.run x.fuel (0, x)).1 ≤ limit := by rwa [ran]
    exact congrArg Prod.snd (Clockwork.runUntil_eq_run ends)
  refine ⟨steps, tries, now, run, watched, complete, fun meets => ?_, fun misses => ?_⟩
  · exact (stage.done (finished (.inl meets))).1 meets
  · exact (stage.done (finished (.inr misses))).2 misses

/-- In whatever order the two start and move, the attempts of the sender come one period after another
until one connects. If one of them would come while the receiver waits then both succeed at once with
the first that connects; if none does then the last attempt and the deadline end the two calls. The clock
comes to that end, and so does whoever watches until then or longer. -/
theorem rendezvous_in_either_order (e : Encounter x) :
    (∀ {steps tries b}, PromptRun e.caller (0, x) steps tries b →
      (e.Complete tries ∨ (∃ m < e.rounds, tries = e.failures m) ∧ Continues x steps b) ∧
      (e.Meets → if b.2.isOver then e.Met tries b.2 else Continues x steps b) ∧
      (e.Misses → if b.2.isOver then e.Missed tries b.2 else Continues x steps b)) ∧
    ∃ steps tries now, PromptRun e.caller (0, x) steps tries (now, x.run) ∧
      (∀ limit, now ≤ limit → x.watch limit = x.run) ∧ e.Complete tries ∧
      (e.Meets → e.Met tries x.run) ∧ (e.Misses → e.Missed tries x.run) := by
  refine ⟨fun {steps tries b} run => ?_, e.run_done⟩
  have stage := Stage.run run
  refine ⟨stage.complete_or_goes.imp_right (And.imp_right continues), fun meets => ?_, fun misses => ?_⟩
  · split
    next finished => exact (stage.done finished).1 meets
    next unfinished =>
      exact continues (stage.done_or_goes (.inl meets) (Bool.eq_false_iff.mpr unfinished))
  · split
    next finished => exact (stage.done finished).2 misses
    next unfinished =>
      exact continues (stage.done_or_goes (.inr misses) (Bool.eq_false_iff.mpr unfinished))

end Encounter

/-- A sender that begins at once, and a receiver that opens later. -/
def appointment (retries : UInt32) (interval : UInt64) (opens : Nat) (timeout : UInt64) : Exchange where
  root := ⟨0, []⟩
  tokens := ⟨1, []⟩
  cancels := []
  sockets := .empty
  actors := [
    ⟨0, .sender ⟨⟨"s", retries, .ofMillis interval⟩, .binary, .ofToken ⟨0, []⟩,
      [⟨.tdxReport, [1, 2], [3]⟩], .starting⟩, none, [], none⟩,
    ⟨opens, .receiver ⟨⟨"s", .ofMillis timeout, false⟩, .binary, .ofToken ⟨0, []⟩, .starting⟩,
      none, [], none⟩]
  turn := none

theorem free_appointment : Sockets.empty.Free "s" := ⟨by decide, _, _, rfl, rfl⟩

/-- The two find nobody else there. -/
def appointed {retries : UInt32} {interval : UInt64} {opens : Nat} {timeout : UInt64}
    (retries_lt : retries.toNat < UInt32.size - 1) (patient : 0 < timeout.toNat)
    (representable : (opens + timeout.toNat) * 1000000 < Instant.limitSecs * 1000000000) :
    Encounter (appointment retries interval opens timeout) where
  caller := 0
  host := 1
  d := _
  r := _
  begins := 0
  opens := opens
  interval := interval.toNat
  timeout := timeout.toNat
  payload := Evidence.Bundle.bytes [⟨.tdxReport, [1, 2], [3]⟩]
  initial := by
    refine ⟨FileSystem.wellFormed_empty, rfl, rfl, fun a ha => ?_⟩
    obtain rfl | rfl : a = _ ∨ a = _ := by simpa [appointment] using ha
    · exact ⟨rfl, rfl⟩
    · exact ⟨rfl, rfl⟩
  uncancelled := rfl
  pair := rfl
  apart := Nat.zero_ne_one
  calls := rfl
  hosts := rfl
  path_eq := rfl
  free := free_appointment
  locksMade entry held := by cases held
  acceptFault := rfl
  settled := rfl
  senderLasts := ⟨rfl, rfl⟩
  receiverLasts := ⟨rfl, rfl⟩
  senderCodec := rfl
  receiverCodec := rfl
  encoded := rfl
  fits := by decide
  retries := retries_lt
  interval_eq := rfl
  timeout_eq := rfl
  patient := patient
  representable := representable

/-- With two retries after thirty milliseconds each, a receiver that opens after twenty is met, and one
that opens after seventy is missed. -/
theorem rendezvous_in_either_order_appointments :
    ∃ (early : Encounter (appointment 2 30 20 100)) (late : Encounter (appointment 2 30 70 100)),
      early.Meets ∧ (∃ tries, early.Met tries (appointment 2 30 20 100).run) ∧
      late.Misses ∧ ∃ tries, late.Missed tries (appointment 2 30 70 100).run := by
  let early : Encounter (appointment 2 30 20 100) := appointed (by decide) (by decide) (by decide)
  let late : Encounter (appointment 2 30 70 100) := appointed (by decide) (by decide) (by decide)
  have meets : early.Meets := ⟨1, by decide, by decide, by decide⟩
  have misses : late.Misses := by
    unfold Encounter.Misses
    decide
  obtain ⟨-, _, tries, _, -, -, -, met, -⟩ := early.rendezvous_in_either_order
  obtain ⟨-, _, tries', _, -, -, -, -, missed⟩ := late.rendezvous_in_either_order
  exact ⟨early, late, meets, ⟨tries, met meets⟩, misses, tries', missed misses⟩

/-- A sender and a receiver of a path in a directory that is missing. -/
def unhoused : Exchange where
  root := ⟨0, []⟩
  tokens := ⟨1, []⟩
  cancels := []
  sockets := .empty
  actors := [
    ⟨500, .sender ⟨.withSocket "d/s", .binary, .ofToken ⟨0, []⟩, [⟨.tdxReport, [1, 2], [3]⟩],
      .starting⟩, none, [], none⟩,
    ⟨0, .receiver ⟨⟨"d/s", .ofMillis 1000, false⟩, .binary, .ofToken ⟨0, []⟩, .starting⟩,
      none, [], none⟩]
  turn := none

/-- A pause never lasts longer than thirty years. Were it as long as the interval, the second attempt
would come half a second after the receiver opens; it comes half a second before. And where the directory
of the path is missing, a receiver does not wait for the attempt that is to come half a second later. -/
theorem rendezvous_fails_after_long_interval_and_without_directory :
    (∃ e : Encounter (appointment 1 946080001000 946080000500 1000000),
      1 < e.rounds ∧ e.opens < e.begins + 1 * e.interval ∧ e.begins + 1 * e.interval < e.closes ∧
      (∃ cause, (appointment 1 946080001000 946080000500 1000000).run.Ended e.caller
        (.sender (e.d.goTo (.settled (.returned (.error (.connectFailed "s" 2 cause))))))
        946080000000) ∧
      (appointment 1 946080001000 946080000500 1000000).run.Ended e.host
        (.receiver (e.r.goTo (.settled (.returned (.error (.timeout e.r.config.timeout))))))
        946081000500) ∧
    unhoused.sockets.fs.entryAt? "d/s" = none ∧ unhoused.sockets.locked = [] ∧
      unhoused.run.Ended 1
        (.receiver ⟨⟨"d/s", .ofMillis 1000, false⟩, .binary, .ofToken ⟨0, []⟩,
          .settled (.returned (.error (.bindFailed "d/s" .noEntry)))⟩) 0 ∧
      unhoused.run.Ended 0
        (.sender ⟨.withSocket "d/s", .binary, .ofToken ⟨0, []⟩, [⟨.tdxReport, [1, 2], [3]⟩],
          .settled (.returned (.error (.connectFailed "d/s" 1 .noEntry)))⟩) 500 := by
  refine ⟨?_, by decide, rfl, ⟨_, rfl, rfl, rfl⟩, _, rfl, rfl, rfl⟩
  let e : Encounter (appointment 1 946080001000 946080000500 1000000) :=
    appointed (by decide) (by decide) (by decide)
  have misses : e.Misses := by
    unfold Encounter.Misses
    decide
  obtain ⟨-, _, -, -, -, -, -, missed⟩ := e.run_done
  obtain ⟨-, sent, received⟩ := missed misses
  have last : e.attemptAt (e.rounds - 1) = 946080000000 := by decide
  have closes : e.closes = 946081000500 := by decide
  rw [last] at sent
  rw [closes] at received
  exact ⟨e, by decide, by decide, by decide, sent, received⟩

end Exchange

end EvidenceExchange
