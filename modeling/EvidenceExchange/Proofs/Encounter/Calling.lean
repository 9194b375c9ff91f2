import EvidenceExchange.Proofs.Encounter.Basic

namespace EvidenceExchange

namespace Retry

variable {path : String} {policy : RetryPolicy} {c : Context} {ts : Tokens} {now attempt : Nat}
  {s s' : Sockets}

theorem move_trying_of_refused (live : c.pollDone ts now = none) {cause : IoError}
    (refused : s.connect path = (.error cause, s')) :
    (trying attempt ()).move (Sender.connecting path) policy c ts now s =
      some ((afterFailure (Sender.connecting path) policy now attempt cause).1, s',
        [(afterFailure (Sender.connecting path) policy now attempt cause).2]) := by
  simp only [move, live, Sender.connecting, Transport.connect, refused]

theorem move_trying_of_connected (live : c.pollDone ts now = none) {stream : Endpoint}
    (connected : s.connect path = (.ok stream, s')) :
    (trying attempt ()).move (Sender.connecting path) policy c ts now s =
      some (settled (.ok stream), s', []) := by
  simp only [move, live, Sender.connecting, Transport.connect, connected]

end Retry

namespace Exchange.Encounter

variable {x : Exchange} (e : Encounter x)

/-- How far the sender has come after so many attempts, all of which have failed. -/
inductive Calling (m now : Nat) : Sender.Phase → Option Nat → Prop
  | starting (first : m = 0) (early : now ≤ e.begins) : Calling m now .starting none
  | calling (more : m < e.rounds) (due : now = e.attemptAt m) :
      Calling m now (.connecting e.payload (.calling (m + 1))) none
  | trying (more : m < e.rounds) (due : now = e.attemptAt m) :
      Calling m now (.connecting e.payload (.trying (m + 1) ())) none
  | pausing (more : m < e.rounds) (started : e.begins ≤ now) (early : now ≤ e.attemptAt m) :
      Calling m now (.connecting e.payload (.pausing m (e.attemptAt m))) none
  | exhausted (cause : IoError) (all : m = e.rounds) :
      Calling m now (.settled (.returned (.error (.connectFailed e.d.path e.rounds cause))))
        (some (e.attemptAt (e.rounds - 1)))

/-- What a move of the sender comes to, with the attempt that it makes and what is left of it. -/
inductive CallerMoves (m now : Nat) (s : Sockets) (u : Option Nat) :
    Option Attempt → Sockets → Sender.Phase → Prop
  | goesOn {p} (calling : e.Calling m now p u) : CallerMoves m now s u none s p
  | fails {p cause} (more : m < e.rounds) (due : now = e.attemptAt m)
      (refused : s.connect e.d.path = (.error cause, s)) (calling : e.Calling (m + 1) now p u) :
      CallerMoves m now s u (some ⟨now, false⟩) s p
  | connects {stream s'} (more : m < e.rounds) (due : now = e.attemptAt m)
      (connected : s.connect e.d.path = (.ok stream, s')) :
      CallerMoves m now s u (some ⟨now, true⟩) s' (.writing e.payload stream e.frame)

/-- A bound on the steps that are left to the sender, the ends of its waits among them. -/
def callerSteps (now : Nat) : Sender.Phase → Nat
  | .starting => 4 * e.rounds + e.frame.length + 3 + if now < e.begins then 1 else 0
  | .connecting _ (.calling a) => 4 * (e.rounds - a) + e.frame.length + 6
  | .connecting _ (.trying a _) => 4 * (e.rounds - a) + e.frame.length + 5
  | .connecting _ (.pausing a wake) =>
    4 * (e.rounds - a) + e.frame.length + 3 + if now < wake then 1 else 0
  | .connecting _ (.settled _) => 0
  | .writing _ _ rest => rest.length
  | .settled _ => 0

variable {e} {m now grain : Nat} {s : Sockets} {p p' : Sender.Phase} {u : Option Nat}
  {o : Outcome Sender}

theorem attempt?_trying (attempt : Nat) (s : Sockets) :
    (e.d.goTo (.connecting e.payload (.trying attempt ()))).attempt? x.tokens now s =
      some ⟨now, (s.connect e.d.path).1.isOk⟩ := by
  have live : e.d.context.pollDone x.tokens now = none := e.senderLasts.pollDone now
  simp only [Sender.attempt?, Sender.goTo, live]
  rfl

/-- A failed attempt is the last one, or the next one comes a period later. -/
theorem afterFailure_eq (due : now = e.attemptAt m) (cause : IoError) :
    (Retry.afterFailure (Sender.connecting e.d.path) e.d.config.retryPolicy now (m + 1) cause).1 =
      if e.rounds ≤ m + 1 then .settled (.error (.exhausted (m + 1) cause))
        else .pausing (m + 1) (e.attemptAt (m + 1)) := by
  rw [Retry.afterFailure, e.maxAttempts_eq, e.tick_afterWait, due, ← e.attemptAt_succ]
  split <;> rfl

/-- An attempt is followed by the writing of the frame, by a pause or by the end of the call. -/
theorem step_trying (more : m < e.rounds) (due : now = e.attemptAt m)
    (moved : (e.d.goTo (.connecting e.payload (.trying (m + 1) ()))).move grain x.tokens now s = some o)
    (after : o.value = e.d.goTo p') :
    e.CallerMoves m now s (if (e.d.goTo p').isOver then some now else none)
        (some ⟨now, (s.connect e.d.path).1.isOk⟩) o.sockets p' ∧
      e.callerSteps now p' < 4 * (e.rounds - (m + 1)) + e.frame.length + 5 := by
  have live := e.senderLasts.pollDone now
  change Option.map _ ((Retry.trying (m + 1) ()).move (Sender.connecting e.d.path)
    e.d.config.retryPolicy e.d.context x.tokens now s) = some o at moved
  cases connected : s.connect e.d.path with
  | mk result s' =>
    cases result with
    | ok stream =>
      rw [Retry.move_trying_of_connected live connected, Option.map_some] at moved
      simp only [Sender.connected, e.framed] at moved
      cases moved
      obtain rfl : .writing e.payload stream e.frame = p' := congrArg Sender.phase after
      refine ⟨.connects more due connected, ?_⟩
      simp only [callerSteps]
      omega
    | error cause =>
      obtain rfl := Sockets.connect_refused connected
      rw [Retry.move_trying_of_refused live connected, Option.map_some, afterFailure_eq due] at moved
      by_cases last : e.rounds ≤ m + 1
      · rw [if_pos last] at moved
        cases moved
        have all : m + 1 = e.rounds := by omega
        obtain rfl : .settled (.returned (.error (.connectFailed e.d.path (m + 1) cause))) = p' :=
          congrArg Sender.phase after
        refine ⟨.fails more due connected ?_, ?_⟩
        · have ended : e.Calling (m + 1) now _ _ := .exhausted cause all
          rw [← all, Nat.add_sub_cancel, ← due] at ended
          exact ended
        · simp only [callerSteps]
          omega
      · rw [if_neg last] at moved
        cases moved
        obtain rfl : .connecting e.payload (.pausing (m + 1) (e.attemptAt (m + 1))) = p' :=
          congrArg Sender.phase after
        have early : now ≤ e.attemptAt (m + 1) := due ▸ e.attemptAt_mono (Nat.le_succ m)
        have started : e.begins ≤ now := due ▸ e.begins_le_attemptAt m
        refine ⟨.fails more due connected (.pausing (by omega) started early), ?_⟩
        simp only [callerSteps]
        split <;> omega

theorem Calling.step (calling : e.Calling m now p u) (started : e.begins ≤ now)
    (moved : (e.d.goTo p).move grain x.tokens now s = some o) (after : o.value = e.d.goTo p') :
    e.CallerMoves m now s (if (e.d.goTo p').isOver then u <|> some now else none)
        ((e.d.goTo p).attempt? x.tokens now s) o.sockets p' ∧
      e.callerSteps now p' < e.callerSteps now p := by
  have live := e.senderLasts.pollDone now
  have unended := e.senderLasts.ended? now
  cases calling with
  | starting first early =>
    subst first
    have encoded : e.d.codec.encode e.d.bundle = .ok e.payload := e.senderCodec ▸ e.encoded
    simp only [Sender.move, Sender.goTo, Sender.start, e.sender_valid, encoded] at moved
    cases moved
    obtain rfl : .connecting e.payload .start = p' := congrArg Sender.phase after
    have due : now = e.attemptAt 0 := by
      rw [attemptAt, Nat.zero_mul]
      exact early.antisymm started
    have pos : 0 < e.rounds := Nat.succ_pos _
    refine ⟨.goesOn (.calling pos due), ?_⟩
    simp only [callerSteps, Retry.start]
    omega
  | calling more due =>
    simp only [Sender.move, Sender.goTo, Sender.connect, Retry.move, unended] at moved
    cases moved
    obtain rfl : .connecting e.payload (.trying (m + 1) ()) = p' := congrArg Sender.phase after
    refine ⟨.goesOn (.trying more due), ?_⟩
    simp only [callerSteps]
    omega
  | trying more due =>
    rw [attempt?_trying]
    exact step_trying more due moved after
  | pausing more started early =>
    simp only [Sender.move, Sender.goTo, Sender.connect, Retry.move, live] at moved
    split at moved
    next woken =>
      cases moved
      obtain rfl : .connecting e.payload (.calling (m + 1)) = p' := congrArg Sender.phase after
      refine ⟨.goesOn (.calling more (early.antisymm woken)), ?_⟩
      simp only [callerSteps]
      split <;> omega
    next => cases moved
  | exhausted => cases moved

/-- A sender that has nothing to do: before its start, in a pause or at the end. -/
inductive CallerRests (e : Encounter x) (m now : Nat) : Sender.Phase → Option Nat → Prop
  | unstarted (first : m = 0) (early : now < e.begins) : CallerRests e m now .starting none
  | pause (more : m < e.rounds) (started : e.begins ≤ now) (early : now < e.attemptAt m) :
      CallerRests e m now (.connecting e.payload (.pausing m (e.attemptAt m))) none
  | finished (cause : IoError) (all : m = e.rounds) :
      CallerRests e m now (.settled (.returned (.error (.connectFailed e.d.path e.rounds cause))))
        (some (e.attemptAt (e.rounds - 1)))

theorem Calling.rests (calling : e.Calling m now p u)
    (idle : e.begins ≤ now → (e.d.goTo p).move grain x.tokens now s = none) :
    e.CallerRests m now p u := by
  have live := e.senderLasts.pollDone now
  have unended := e.senderLasts.ended? now
  cases calling with
  | starting first early =>
    refine .unstarted first (not_le.mp fun started => ?_)
    cases idle started
  | calling more due =>
    have still := idle (due ▸ e.begins_le_attemptAt m)
    simp only [Sender.move, Sender.goTo, Sender.connect, Retry.move, unended] at still
    cases still
  | trying more due =>
    have still := idle (due ▸ e.begins_le_attemptAt m)
    change Option.map _ ((Retry.trying (m + 1) ()).move (Sender.connecting e.d.path)
      e.d.config.retryPolicy e.d.context x.tokens now s) = none at still
    obtain ⟨result, connected⟩ : ∃ result, (s.connect e.d.path) = result := ⟨_, rfl⟩
    obtain ⟨cause | stream, s'⟩ := result
    · rw [Retry.move_trying_of_refused live connected] at still
      cases still
    · rw [Retry.move_trying_of_connected live connected] at still
      cases still
  | pausing more started early =>
    refine .pause more started (not_le.mp fun due => ?_)
    have still := idle started
    simp only [Sender.move, Sender.goTo, Sender.connect, Retry.move, live, if_pos due] at still
    cases still
  | exhausted cause all => exact .finished cause all

namespace CallerRests

theorem exists_timer (rests : e.CallerRests m now p u) (live : (e.d.goTo p).isOver = false) :
    ∃ t ∈ e.callerTimers p, now < t := by
  cases rests with
  | unstarted first early => exact ⟨e.begins, List.mem_cons_self .., early⟩
  | pause more started early =>
    exact ⟨e.attemptAt m, List.mem_cons_of_mem _ (List.mem_cons_self ..), early⟩
  | finished => cases live

theorem wait (rests : e.CallerRests m now p u) {later : Nat} (passes : now < later)
    (least : ∀ t ∈ e.callerTimers p, now < t → later ≤ t) :
    e.Calling m later p u ∧ e.callerSteps later p ≤ e.callerSteps now p ∧
      (later ∈ e.callerTimers p → e.callerSteps later p < e.callerSteps now p) := by
  cases rests with
  | unstarted first early =>
    have le := least _ (List.mem_cons_self ..) early
    refine ⟨.starting first le, ?_, fun mem => ?_⟩
    · simp only [callerSteps, if_pos early]
      split <;> omega
    · obtain rfl : later = e.begins := List.mem_singleton.mp mem
      simp only [callerSteps, if_pos early, if_neg (lt_irrefl _)]
      omega
  | pause more started early =>
    have timers : e.callerTimers (.connecting e.payload (.pausing m (e.attemptAt m))) =
        [e.begins, e.attemptAt m] := by
      simp [callerTimers, Sender.isOver, Sender.goTo, Sender.timers, Retry.timers,
        e.senderLasts.timers]
    rw [timers] at least ⊢
    have le := least _ (List.mem_cons_of_mem _ (List.mem_cons_self ..)) early
    refine ⟨.pausing more (started.trans passes.le) le, ?_, fun mem => ?_⟩
    · simp only [callerSteps, if_pos early]
      split <;> omega
    · obtain rfl | mem := List.mem_cons.mp mem
      · exact absurd passes (not_lt.mpr started)
      · obtain rfl := List.mem_singleton.mp mem
        simp only [callerSteps, if_pos early, if_neg (lt_irrefl _)]
        omega
  | finished cause all =>
    refine ⟨.exhausted cause all, le_rfl, fun mem => ?_⟩
    cases mem

end CallerRests

end Exchange.Encounter

end EvidenceExchange
