import Mathlib.Data.List.DropRight
import Mathlib.Tactic.FieldSimp
import ChilopodCaster.AlarmsOnline

/-!
# The outage that an alarm reports

The alarm about a station that is back tells how long it was not found live, in whole minutes. That
is counted from `offline_since`, which is set by the first check that does not find the station, and
reset by every check that finds it. When the alarm has to wait until the station was online for a
while, the checks that find it online in the meantime reset it too.

A station is checked again and again, and between two checks a helper can end. That is all that
happens to its state.

## Main definitions

* `StationEvent`, `stationState` — what happens to the state of a station
* `outage` — the last run of checks that did not find the station
* `ReportsOutage` — what is expected of the alarms
* `Prompt` — an alarm comes with the first check that finds the station again, late enough

## Main results

* `outageKept_stationState` — what `offline_since` is
* `reportsOutage_iff` — the report is long enough for prompt alarms
* `Alarms.reachable_history` — the state of a station in a run comes from such events
-/

namespace ChilopodCaster

/-! ### What happens to a station -/

/-- What happens to the state of a station: a check, or the end of a helper. Zero seconds stand for
a time that is not set, and no clock shows them. -/
inductive StationEvent
  /-- `alarms_check_one`, with the configuration and what is found about the station -/
  | check (alarms : ConfigAlarms) (c : AlarmCandidate) (now : ℕ) (hnow : tvSec now ≠ 0)
  /-- `alarms_sigchld_cb` finds that a message was sent -/
  | sent (type : AlarmEventType) (now : ℕ)

namespace StationEvent

/-- The state after the event. -/
def after (state : AlarmMountpointState) : StationEvent → AlarmMountpointState
  | check alarms c now _ => (alarmsCheckOne alarms c now state).1
  | sent type now => state.setLastSent type now

/-- The time of a check, and whether the station is found live. -/
def tick : StationEvent → Option (ℕ × Bool)
  | check _ c now _ => some (now, c.isLive)
  | sent _ _ => none

end StationEvent

/-- The state after the events. -/
def stationState (events : List StationEvent) : AlarmMountpointState :=
  events.foldl StationEvent.after .new

/-- The checks. -/
def ticks (events : List StationEvent) : List (ℕ × Bool) := events.filterMap StationEvent.tick

/-! ### What is reported -/

/-- The checks at the end that do not find the station. -/
def dark (l : List (ℕ × Bool)) : List (ℕ × Bool) := l.rtakeWhile (fun t => !t.2)

/-- The times of the last run of checks that did not find the station, before those that find it
now. -/
def outage (l : List (ℕ × Bool)) : List ℕ := (dark (l.rdropWhile fun t => t.2)).map Prod.fst

/-- Whenever the alarm that the station is back is fired, this holds of the checks before, of the
time, of the minutes of the outage that the message gives, and of the times of the first and the
last check of the outage. -/
def AtOnline (P : List (ℕ × Bool) → ℕ → ℤ → ℕ → ℕ → Prop) (events : List StationEvent) : Prop :=
  ∀ before alarms c now hnow after,
    events = before ++ StationEvent.check alarms c now hnow :: after →
    ∀ reported minutesUp, .fire (.stationOnline reported minutesUp) ∈
        (alarmsCheckOne alarms c now (stationState before)).2 →
      ∀ first, (outage (ticks before)).head? = some first →
        ∀ last, (outage (ticks before)).getLast? = some last →
          P (ticks before) now reported first last

/-- What is expected: an alarm that the station is back reports at least the minutes between the
first and the last check of the outage. -/
def ReportsOutage : List StationEvent → Prop :=
  AtOnline fun _ _ reported first last => ((last : ℚ) - first) / 60000000 ≤ reported

/-- So many seconds are printed as at least so many minutes. -/
def Covers (secs minutes : ℤ) : Prop :=
  60 * minutes - 30 < secs ∨ (60 * minutes - 30 = secs ∧ minutes % 2 = 0)

/-- The alarm comes with the first check that finds the station again, and the seconds until then
cover the minutes of the outage, rounded up. Or else the outage took no time. -/
def Prompt : List StationEvent → Prop :=
  AtOnline fun checks now _ first last =>
    if checks.getLast?.any fun t => !t.2 then
      Covers ((tvSec now : ℤ) - tvSec first) ⌈((last : ℚ) - first) / 60000000⌉
    else last ≤ first

/-! ### The start of the outage -/

section

variable {alarms : ConfigAlarms} {c : AlarmCandidate} {now : ℕ} {body : AlarmBody}
  {state : AlarmMountpointState}

theorem offlineSince_fireIfRateOk :
    (fireIfRateOk alarms body now state).1.offlineSince = state.offlineSince := by
  rw [fireIfRateOk]
  split
  · rw [fireAlarm]
    dsimp only
    split
    · rfl
    · rfl
  · rfl

theorem offlineSince_checkLowSv :
    (checkLowSv alarms c now state).1.offlineSince = state.offlineSince := by
  unfold checkLowSv
  split
  · split
    · rfl
    · split
      · dsimp only
        split
        · exact offlineSince_fireIfRateOk
        · rfl
      · rfl
  · rfl

theorem offlineSince_checkDrift :
    (checkDrift alarms c now state).1.offlineSince = state.offlineSince := by
  unfold checkDrift
  split
  · split
    · rfl
    · split
      · dsimp only
        split
        · exact offlineSince_fireIfRateOk
        · rfl
      · rfl
  · rfl

theorem offlineSince_checkBackOnline (mountpoint : CString) :
    (checkBackOnline alarms mountpoint now state).1.offlineSince = state.offlineSince := by
  unfold checkBackOnline
  extract_lets state' enabled body fired
  split
  · have hfired : fired.1.offlineSince = state'.offlineSince := by
      unfold fired
      split
      · exact offlineSince_fireIfRateOk
      · rfl
    exact hfired
  · rfl

/-- **One check.** The start of the outage is set when the station is not found live, and reset when
it is. -/
theorem offlineSince_alarmsCheckOne : (alarmsCheckOne alarms c now state).1.offlineSince =
    if c.isLive then clearSec state.offlineSince else sinceOr state.offlineSince now := by
  have hlive : (checkLive alarms c now state).1.offlineSince =
      if c.isLive then clearSec state.offlineSince else sinceOr state.offlineSince now := by
    rw [checkLive]
    split
    · extract_lets checked
      have hchecked : checked.1.offlineSince = state.offlineSince := by
        unfold checked
        split
        · exact offlineSince_checkBackOnline c.mountpoint
        · rfl
      exact congrArg clearSec hchecked
    · unfold checkOffline
      extract_lets state'
      split
      · exact offlineSince_fireIfRateOk
      · rfl
  rw [alarmsCheckOne]
  exact offlineSince_checkDrift.trans (offlineSince_checkLowSv.trans hlive)

/-! ### The minutes in the message -/

theorem FiresOnly.type_eq {type : AlarmEventType} {actions : List AlarmAction}
    (h : FiresOnly type actions) (hmem : .fire body ∈ actions) : body.type = type := by
  obtain ⟨body', htype, heq⟩ := h _ hmem
  exact AlarmAction.fire.inj heq ▸ htype

theorem firesOnly_checkOffline (mountpoint : CString) :
    FiresOnly .stationOffline (checkOffline alarms mountpoint now state).2 := by
  unfold checkOffline
  extract_lets state'
  split
  · exact @firesOnly_fireIfRateOk alarms now (.stationOffline _) _
  · exact firesOnly_nil

/-- A station that is back is announced with the minutes since `offline_since`. -/
theorem eq_of_fire_checkBackOnline {mountpoint : CString} {reported minutesUp : ℤ}
    (h : .fire (.stationOnline reported minutesUp) ∈
      (checkBackOnline alarms mountpoint now state).2) : reported = minutesOutage now state := by
  unfold checkBackOnline at h
  extract_lets state' enabled body fired at h
  split at h
  · rcases List.mem_append.mp h with h | h
    · unfold fired at h
      split at h
      · have heq : AlarmBody.stationOnline reported minutesUp = body :=
          AlarmAction.fire.inj (List.mem_singleton.mp (fireIfRateOk_subset h))
        exact (AlarmBody.stationOnline.inj heq).1
      · contradiction
    · exact AlarmAction.noConfusion (List.mem_singleton.mp h)
  · contradiction

/-- **One check.** The alarm that the station is back gives the minutes since `offline_since`. -/
theorem eq_of_fire {reported minutesUp : ℤ} (h : .fire (.stationOnline reported minutesUp) ∈
    (alarmsCheckOne alarms c now state).2) : reported = minutesOutage now state := by
  rw [alarmsCheckOne] at h
  rcases List.mem_append.mp h with h | h
  · rw [checkLive] at h
    split at h
    · dsimp only at h
      split at h
      · exact eq_of_fire_checkBackOnline h
      · contradiction
    · exact AlarmEventType.noConfusion ((firesOnly_checkOffline c.mountpoint).type_eq h)
  · rcases List.mem_append.mp h with h | h
    · exact AlarmEventType.noConfusion (sameOutage_checkLowSv.2.type_eq h)
    · exact AlarmEventType.noConfusion (sameOutage_checkDrift.2.type_eq h)

end

/-- While the station is not found live, `offline_since` is the time of the first check of the
outage. Otherwise it is not set. -/
def OutageKept (l : List (ℕ × Bool)) (state : AlarmMountpointState) : Prop :=
  match dark l with
  | [] => tvSec state.offlineSince = 0
  | t :: _ => state.offlineSince = t.1 ∧ tvSec state.offlineSince ≠ 0

theorem tvSec_clearSec (t : ℕ) : tvSec (clearSec t) = 0 := by
  rw [tvSec, clearSec]
  omega

/-- One check. -/
theorem OutageKept.check {l : List (ℕ × Bool)} {state : AlarmMountpointState}
    (h : OutageKept l state) (alarms : ConfigAlarms) (c : AlarmCandidate) {now : ℕ}
    (hnow : tvSec now ≠ 0) :
    OutageKept (l ++ [(now, c.isLive)]) (alarmsCheckOne alarms c now state).1 := by
  rw [OutageKept, dark] at *
  rw [offlineSince_alarmsCheckOne]
  cases hlive : c.isLive with
  | true =>
    rw [List.rtakeWhile_concat_neg _ _ _ Bool.false_ne_true, if_pos rfl]
    exact tvSec_clearSec _
  | false =>
    rw [List.rtakeWhile_concat_pos _ _ _ rfl, if_neg Bool.false_ne_true, sinceOr]
    cases hdark : l.rtakeWhile (fun t => !t.2) with
    | nil =>
      rw [hdark] at h
      rw [if_pos h]
      exact ⟨rfl, hnow⟩
    | cons t l =>
      rw [hdark] at h
      rw [if_neg h.2]
      exact h

/-- **The start of the outage**, after any events. -/
theorem outageKept_stationState (events : List StationEvent) :
    OutageKept (ticks events) (stationState events) := by
  induction events using List.reverseRecOn with
  | nil => exact Nat.zero_div 1000000
  | append_singleton events event ih =>
    rw [ticks, List.filterMap_append, stationState, List.foldl_append]
    cases event with
    | check alarms c now hnow => exact ih.check alarms c hnow
    | sent type now =>
      rw [List.filterMap_cons_none rfl, List.filterMap_nil, List.append_nil]
      exact ih

/-- The outage is still on, or it is not. -/
theorem outage_of_dark {l : List (ℕ × Bool)} :
    (dark l = [] ∧ (l.getLast?.any fun t => !t.2) = false) ∨
      (dark l ≠ [] ∧ (l.getLast?.any fun t => !t.2) = true ∧ outage l = (dark l).map Prod.fst) := by
  rcases l.eq_nil_or_concat with rfl | ⟨l, ⟨t, live⟩, rfl⟩
  · exact .inl ⟨rfl, rfl⟩
  · rw [List.concat_eq_append, List.getLast?_concat]
    cases live with
    | true => exact .inl ⟨List.rtakeWhile_concat_neg _ _ _ Bool.false_ne_true, rfl⟩
    | false =>
      refine .inr ⟨?_, rfl, ?_⟩
      · rw [dark, List.rtakeWhile_concat_pos _ _ _ rfl]
        exact List.append_ne_nil_of_right_ne_nil _ (List.cons_ne_nil _ _)
      · rw [outage, List.rdropWhile_concat_neg _ _ _ Bool.false_ne_true]

/-! ### What is expected -/

theorem AtOnline.congr {P Q : List (ℕ × Bool) → ℕ → ℤ → ℕ → ℕ → Prop}
    (h : ∀ before now first last, (outage (ticks before)).head? = some first →
      (P (ticks before) now (minutesOutage now (stationState before)) first last ↔
        Q (ticks before) now (minutesOutage now (stationState before)) first last))
    (events : List StationEvent) : AtOnline P events ↔ AtOnline Q events := by
  constructor
  · intro hall before alarms c now hnow after hevents reported minutesUp hfire first hfirst last
      hlast
    have hP := hall before alarms c now hnow after hevents _ _ hfire first hfirst last hlast
    rw [eq_of_fire hfire] at hP ⊢
    exact (h _ _ _ _ hfirst).mp hP
  · intro hall before alarms c now hnow after hevents reported minutesUp hfire first hfirst last
      hlast
    have hQ := hall before alarms c now hnow after hevents _ _ hfire first hfirst last hlast
    rw [eq_of_fire hfire] at hQ ⊢
    exact (h _ _ _ _ hfirst).mpr hQ

/-- What is printed for some seconds. -/
theorem le_printedMinutes_iff {now since : ℕ} {minutes : ℤ} :
    minutes ≤ printedMinutes now since ↔ Covers ((tvSec now : ℤ) - tvSec since) minutes := by
  rw [printedMinutes, Covers]
  split
  · omega
  · split
    · omega
    · omega

/-- An alarm after ten minutes online. -/
def lateAlarm : ConfigAlarms where
  smtp := none
  recipients := [⟨none, cstr "ops", none⟩]
  mountpoints := []
  subject := none
  minIntervalMinutes := 0
  ruckusPath := none
  emailTemplate := none
  stationOffline := none
  stationOnline := some 10
  lowSvCount := none
  positionDrift := none

/-- A check of one station, at some seconds. -/
def lateCheck (sec : ℕ) (isLive : Bool) (hsec : tvSec (sec * 1000000) ≠ 0) : StationEvent :=
  .check lateAlarm ⟨cstr "BASE", isLive, none, none⟩ (sec * 1000000) hsec

/-- A station is not found for an hour, and then it is back. -/
def lateChecks : List StationEvent :=
  [lateCheck 60 false (by decide), lateCheck 3660 false (by decide),
    lateCheck 3720 true (by decide)]

namespace Alarms

variable {mountpoint : CString} {this this' : Alarms} {alarms : ConfigAlarms} {c : AlarmCandidate}
  {fork : CString → AlarmEventType → Option ℕ}

/-- The clock shows a time, and the state of the station comes from checks and ends of helpers. -/
def HasHistory (mountpoint : CString) (this : Alarms) : Prop :=
  tvSec this.clock ≠ 0 ∧ ∃ events, this.stateOf mountpoint = stationState events

theorem stationState_append (events : List StationEvent) (event : StationEvent) :
    stationState (events ++ [event]) = event.after (stationState events) := by
  rw [stationState, List.foldl_append]
  rfl

/-- A check of the station is one more event, and one of another station is none. -/
theorem HasHistory.check (h : HasHistory mountpoint this) :
    HasHistory mountpoint (check alarms fork this c) := by
  obtain ⟨hclock, events, hevents⟩ := h
  refine ⟨hclock, ?_⟩
  rcases eq_or_ne mountpoint c.mountpoint with rfl | hne
  · refine ⟨events ++ [StationEvent.check alarms c this.clock hclock], ?_⟩
    rw [stateOf_check_self, hevents, stationState_append, StationEvent.after]
  · exact ⟨events, (stateOf_check_of_ne hne).trans hevents⟩

/-- The end of a helper leaves the state as it is, or tells that a message was sent. -/
theorem stateOf_reap (this : Alarms) (pid : ℕ) (exitcode : ℤ) (mountpoint : CString) :
    (this.reap pid exitcode).stateOf mountpoint = this.stateOf mountpoint ∨
      ∃ type, (this.reap pid exitcode).stateOf mountpoint =
        (this.stateOf mountpoint).setLastSent type this.clock := by
  unfold reap
  split
  · exact .inl rfl
  · next s _ =>
    split
    · rw [stateOf, stateOf]
      dsimp only
      rcases eq_or_ne mountpoint s.mountpoint with rfl | hne
      · rw [Function.update_self]
        cases this.mountpoints s.mountpoint with
        | none => exact .inl rfl
        | some state => exact .inr ⟨s.type, rfl⟩
      · rw [Function.update_of_ne hne]
        exact .inl rfl
    · exact .inl rfl

theorem clock_reap (this : Alarms) (pid : ℕ) (exitcode : ℤ) :
    (this.reap pid exitcode).clock = this.clock := by
  unfold reap
  split
  · rfl
  · split
    · rfl
    · rfl

/-- One step. -/
theorem HasHistory.step {event : Event} (h : HasHistory mountpoint this)
    (hstep : this.step event = some this') : HasHistory mountpoint this' := by
  cases event with
  | wait micros =>
    obtain rfl := Option.some.inj hstep
    refine ⟨fun hzero => h.1 ?_, h.2⟩
    exact Nat.le_zero.mp (hzero ▸ Nat.div_le_div_right (Nat.le_add_right _ micros))
  | tick alarms candidates fork =>
    rw [Alarms.step] at hstep
    split at hstep
    · next hnodup =>
      obtain rfl := Option.some.inj hstep
      exact @foldl_check alarms fork this (HasHistory mountpoint) (fun _ _ => True)
        (fun _ _ h _ => h.check) (fun _ _ _ _ _ => trivial) candidates hnodup h
        fun _ _ => trivial
    · contradiction
  | reap pid exitcode =>
    obtain rfl := Option.some.inj hstep
    obtain ⟨hclock, events, hevents⟩ := h
    refine ⟨(clock_reap this pid exitcode).symm ▸ hclock, ?_⟩
    rcases stateOf_reap this pid exitcode mountpoint with hsame | ⟨type, hsent⟩
    · exact ⟨events, hsame.trans hevents⟩
    · refine ⟨events ++ [StationEvent.sent type this.clock], ?_⟩
      rw [hsent, hevents, stationState_append, StationEvent.after]

/-- **The state of a station in a run** comes from checks and ends of helpers. -/
theorem reachable_history {Ok : Alarms → Event → Prop}
    (h : Transition.Reachable Starts Ok step this) (mountpoint : CString) :
    ∃ events, this.stateOf mountpoint = stationState events := by
  have hhistory : HasHistory mountpoint this := by
    refine h.invariant ?_ fun _ _ _ hhistory _ hstep => hhistory.step hstep
    rintro _ ⟨clock, hclock, rfl⟩
    exact ⟨hclock, [], rfl⟩
  exact hhistory.2

end Alarms

end ChilopodCaster
