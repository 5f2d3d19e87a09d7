import ChilopodCaster.Config
import ChilopodCaster.Lib.Transition

/-!
# Alarms about stations

A timer goes through the stations of the sourcetable. What it finds about each one is compared with
what it found before, and an alarm is fired when something has lasted long enough. Firing an alarm
starts a helper process that sends the message; how that went is known only when the process has
ended and is waited for, which can be after more rounds of the timer.

A time is a number of microseconds, as the two fields of `struct timeval` give it. The code reads
only the seconds.

## Main definitions

* `alarmsCheckOne` — `alarms_check_one`
* `Alarms.step` — a round of the timer, the end of a helper, or time that passes

## Main results

* `Alarms.foldl_check` — what each check keeps is kept by the round
-/

namespace ChilopodCaster

/-- `enum alarm_event_type` -/
inductive AlarmEventType
  | stationOffline
  | stationOnline
  | lowSv
  | positionDrift
  deriving DecidableEq, Repr

/-- `alarm_event_names` -/
def alarmEventName : AlarmEventType → CString
  | .stationOffline => cstr "station_offline"
  | .stationOnline => cstr "station_online"
  | .lowSv => cstr "low_sv_count"
  | .positionDrift => cstr "position_drift"

/-- `tv_sec` -/
def tvSec (t : ℕ) : ℕ := t / 1000000

/-- The time after `tv_sec = 0`. -/
def clearSec (t : ℕ) : ℕ := t % 1000000

/-- `struct alarm_mountpoint_state`. A time whose seconds are zero is not set. -/
structure AlarmMountpointState where
  /-- `none` before the first check -/
  wasLive : Option Bool
  offlineSince : ℕ
  offlineCrossedThreshold : Bool
  onlineSince : ℕ
  lowSvSince : ℕ
  driftSince : ℕ
  lastSent : AlarmEventType → ℕ

/-- The state of a station that has not been checked. -/
def AlarmMountpointState.new : AlarmMountpointState where
  wasLive := none
  offlineSince := 0
  offlineCrossedThreshold := false
  onlineSince := 0
  lowSvSince := 0
  driftSince := 0
  lastSent := fun _ => 0

/-- A message of a type was sent at this time. -/
def AlarmMountpointState.setLastSent (state : AlarmMountpointState) (type : AlarmEventType)
    (t : ℕ) : AlarmMountpointState :=
  { state with lastSent := Function.update state.lastSent type t }

@[simp] theorem AlarmMountpointState.lastSent_setLastSent_self (state : AlarmMountpointState)
    (type : AlarmEventType) (t : ℕ) : (state.setLastSent type t).lastSent type = t :=
  Function.update_self ..

theorem AlarmMountpointState.lastSent_setLastSent_of_ne {state : AlarmMountpointState}
    {type type' : AlarmEventType} (h : type' ≠ type) (t : ℕ) :
    (state.setLastSent type t).lastSent type' = state.lastSent type' :=
  Function.update_of_ne h ..

/-- `struct rtcm_info`, what is averaged over the positions that a station sends. -/
structure RtcmDrift where
  hasLatLonDrift : Bool
  avgLatDriftMm : ℚ
  avgLonDriftMm : ℚ
  hasBaselineAlt : Bool
  avgAltDriftMm : ℚ
  deriving DecidableEq, Repr

/-- A station in a round, and what is found about it. -/
structure AlarmCandidate where
  mountpoint : CString
  /-- `livesource_exists` -/
  isLive : Bool
  /-- `satellite_count`, if the sidecar has one for the station -/
  satelliteCount : Option ℤ
  /-- the entry of `rtcm_cache` -/
  rtcm : Option RtcmDrift
  deriving DecidableEq, Repr

/-- An alarm, with the minutes that its message gives. -/
inductive AlarmBody
  | stationOffline (minutesDown : ℤ)
  | stationOnline (minutesOutage minutesUp : ℤ)
  | lowSv (minutes : ℤ)
  | positionDrift (minutes : ℤ)
  deriving DecidableEq, Repr

/-- Which alarm it is. -/
def AlarmBody.type : AlarmBody → AlarmEventType
  | stationOffline _ => .stationOffline
  | stationOnline _ _ => .stationOnline
  | lowSv _ => .lowSv
  | positionDrift _ => .positionDrift

/-- What a check does that can be seen. -/
inductive AlarmAction
  /-- `fire_alarm` is called -/
  | fire (body : AlarmBody)
  /-- `was_live` changes from 0 to 1; whether the rate limit allows the alarm -/
  | online (rateOk : Bool)
  deriving DecidableEq, Repr

/-! ### One station -/

/-- `timeval_diff_minutes(now, since) >= minutes` -/
def minutesReached (now since : ℕ) (minutes : ℤ) : Bool :=
  60 * minutes ≤ (tvSec now : ℤ) - tvSec since

/-- `timeval_diff_minutes(now, since)`, as `%.0f` prints it: the nearest whole number, and between
two of them the even one. -/
def printedMinutes (now since : ℕ) : ℤ :=
  let secs := (tvSec now : ℤ) - tvSec since
  if secs % 60 < 30 then secs / 60
  else if secs % 60 = 30 then secs / 60 + secs / 60 % 2
  else secs / 60 + 1

/-- `alarm_rate_ok` -/
def alarmRateOk (state : AlarmMountpointState) (type : AlarmEventType) (now : ℕ)
    (minIntervalMinutes : ℤ) : Bool :=
  tvSec (state.lastSent type) = 0 || minutesReached now (state.lastSent type) minIntervalMinutes

/-- `recipient_wants` -/
def recipientWants (r : ConfigAlarmsRecipient) (type : AlarmEventType) : Bool :=
  (r.alarmTypes.map fun types => types.any (· = alarmEventName type)).getD true

/-- `mountpoint_wants` -/
def mountpointWants (alarms : ConfigAlarms) (mountpoint : CString) (type : AlarmEventType) : Bool :=
  ((alarms.mountpoints.find? (·.mountpoint = mountpoint)).map fun m =>
    (m.alarmTypes.getD []).any (· = alarmEventName type)).getD true

/-- `any_recipient`, in `fire_alarm` -/
def anyRecipient (alarms : ConfigAlarms) (type : AlarmEventType) : Bool :=
  alarms.recipients.any (recipientWants · type)

/-- `fire_alarm`, on the state. With no recipient the alarm counts as sent. -/
def fireAlarm (alarms : ConfigAlarms) (body : AlarmBody) (now : ℕ)
    (state : AlarmMountpointState) : AlarmMountpointState × List AlarmAction :=
  (if anyRecipient alarms body.type then state
    else state.setLastSent body.type now, [.fire body])

/-- An alarm that is due is fired, unless it is limited. -/
def fireIfRateOk (alarms : ConfigAlarms) (body : AlarmBody) (now : ℕ)
    (state : AlarmMountpointState) : AlarmMountpointState × List AlarmAction :=
  if alarmRateOk state body.type now alarms.minIntervalMinutes then fireAlarm alarms body now state
  else (state, [])

/-- A time that is not set is set. -/
def sinceOr (since now : ℕ) : ℕ := if tvSec since = 0 then now else since

/-- The alarm about a station that is back is wanted, and its outage was long enough. -/
def onlineEnabled (alarms : ConfigAlarms) (mountpoint : CString) (state : AlarmMountpointState) :
    Bool :=
  alarms.stationOnline.isSome && mountpointWants alarms mountpoint .stationOnline &&
    (alarms.stationOffline.isNone || state.offlineCrossedThreshold)

/-- `minutes_outage`, as the message gives it -/
def minutesOutage (now : ℕ) (state : AlarmMountpointState) : ℤ :=
  if tvSec state.offlineSince ≠ 0 then printedMinutes now state.offlineSince else 0

/-- A station that is found live after it was not. -/
def checkBackOnline (alarms : ConfigAlarms) (mountpoint : CString) (now : ℕ)
    (state : AlarmMountpointState) : AlarmMountpointState × List AlarmAction :=
  let state := { state with onlineSince := sinceOr state.onlineSince now }
  let enabled := onlineEnabled alarms mountpoint state
  if enabled = false ∨ minutesReached now state.onlineSince (alarms.stationOnline.getD 0) then
    let body := .stationOnline (minutesOutage now state) (printedMinutes now state.onlineSince)
    let fired := if enabled then fireIfRateOk alarms body now state else (state, [])
    ({ fired.1 with wasLive := some true },
      fired.2 ++ [.online (alarmRateOk state .stationOnline now alarms.minIntervalMinutes)])
  else (state, [])

/-- A station that is not found live. -/
def checkOffline (alarms : ConfigAlarms) (mountpoint : CString) (now : ℕ)
    (state : AlarmMountpointState) : AlarmMountpointState × List AlarmAction :=
  let state := { state with
    onlineSince := clearSec state.onlineSince
    wasLive := some false
    offlineSince := sinceOr state.offlineSince now
    offlineCrossedThreshold :=
      if tvSec state.offlineSince = 0 then false else state.offlineCrossedThreshold }
  if alarms.stationOffline.isSome ∧ mountpointWants alarms mountpoint .stationOffline ∧
      minutesReached now state.offlineSince (alarms.stationOffline.getD 0) then
    fireIfRateOk alarms (.stationOffline (printedMinutes now state.offlineSince)) now
      { state with offlineCrossedThreshold := true }
  else (state, [])

/-- The first part of `alarms_check_one` -/
def checkLive (alarms : ConfigAlarms) (c : AlarmCandidate) (now : ℕ)
    (state : AlarmMountpointState) : AlarmMountpointState × List AlarmAction :=
  if c.isLive then
    let checked := if state.wasLive = some false then checkBackOnline alarms c.mountpoint now state
      else (state, [])
    ({ checked.1 with offlineSince := clearSec checked.1.offlineSince }, checked.2)
  else checkOffline alarms c.mountpoint now state

/-- The second part, about satellites -/
def checkLowSv (alarms : ConfigAlarms) (c : AlarmCandidate) (now : ℕ)
    (state : AlarmMountpointState) : AlarmMountpointState × List AlarmAction :=
  match alarms.lowSvCount, c.satelliteCount with
  | some low, some sv =>
    if mountpointWants alarms c.mountpoint .lowSv = false then (state, [])
    else if sv < low.minSats then
      let state := { state with lowSvSince := sinceOr state.lowSvSince now }
      if minutesReached now state.lowSvSince low.afterMinutes then
        fireIfRateOk alarms (.lowSv (printedMinutes now state.lowSvSince)) now state
      else (state, [])
    else ({ state with lowSvSince := clearSec state.lowSvSince }, [])
  | _, _ => (state, [])

/-- The position that a station sends is too far from where it should be. -/
def driftTriggered (pd : ConfigAlarmsPositionDrift) (rp : RtcmDrift) : Bool :=
  (0 < pd.latMm ∧ rp.hasLatLonDrift ∧ pd.latMm < rp.avgLatDriftMm) ∨
    (0 < pd.lonMm ∧ rp.hasLatLonDrift ∧ pd.lonMm < rp.avgLonDriftMm) ∨
      (0 < pd.altMm ∧ rp.hasBaselineAlt ∧ pd.altMm < rp.avgAltDriftMm)

/-- The third part, about positions -/
def checkDrift (alarms : ConfigAlarms) (c : AlarmCandidate) (now : ℕ)
    (state : AlarmMountpointState) : AlarmMountpointState × List AlarmAction :=
  match alarms.positionDrift with
  | some pd =>
    if mountpointWants alarms c.mountpoint .positionDrift = false then (state, [])
    else if c.rtcm.any (driftTriggered pd) then
      let state := { state with driftSince := sinceOr state.driftSince now }
      if minutesReached now state.driftSince pd.afterMinutes then
        fireIfRateOk alarms (.positionDrift (printedMinutes now state.driftSince)) now state
      else (state, [])
    else ({ state with driftSince := clearSec state.driftSince }, [])
  | none => (state, [])

/-- `alarms_check_one`, on the state of the station -/
def alarmsCheckOne (alarms : ConfigAlarms) (c : AlarmCandidate) (now : ℕ)
    (state : AlarmMountpointState) : AlarmMountpointState × List AlarmAction :=
  let live := checkLive alarms c now state
  let lowSv := checkLowSv alarms c now live.1
  let drift := checkDrift alarms c now lowSv.1
  (drift.1, live.2 ++ (lowSv.2 ++ drift.2))

/-! ### All stations -/

/-- `struct alarm_send`: a helper process that has not been waited for. `handed` is when it was
started. -/
structure AlarmSend where
  pid : ℕ
  mountpoint : CString
  type : AlarmEventType
  handed : ℕ
  deriving DecidableEq, Repr

/-- A message that was sent: when its helper was started, and when it was waited for. -/
structure Notification where
  mountpoint : CString
  type : AlarmEventType
  handed : ℕ
  reaped : ℕ
  deriving DecidableEq, Repr

/-- `struct alarms_state`. The clock, and what has been done and sent, are kept beside it. -/
structure Alarms where
  mountpoints : CString → Option AlarmMountpointState
  sends : List AlarmSend
  clock : ℕ
  actions : List (CString × AlarmAction)
  sent : List Notification

namespace Alarms

/-- What can happen. -/
inductive Event
  | wait (micros : ℕ)
  /-- a round of the timer, with the configuration, the stations, and the process that `fork` makes,
  if it makes one -/
  | tick (alarms : ConfigAlarms) (candidates : List AlarmCandidate)
      (fork : CString → AlarmEventType → Option ℕ)
  /-- `waitpid` returns a process and how it ended -/
  | reap (pid : ℕ) (exitcode : ℤ)

/-- The state of a station, new if it has none. -/
def stateOf (this : Alarms) (mountpoint : CString) : AlarmMountpointState :=
  (this.mountpoints mountpoint).getD .new

/-- The helper that an action starts. -/
def spawnRuckus (alarms : ConfigAlarms) (mountpoint : CString) (now : ℕ)
    (fork : CString → AlarmEventType → Option ℕ) : AlarmAction → Option AlarmSend
  | .fire body =>
    if anyRecipient alarms body.type then
      (fork mountpoint body.type).map fun pid => ⟨pid, mountpoint, body.type, now⟩
    else none
  | .online _ => none

/-- `alarms_check_one` -/
def check (alarms : ConfigAlarms) (fork : CString → AlarmEventType → Option ℕ) (this : Alarms)
    (c : AlarmCandidate) : Alarms :=
  let checked := alarmsCheckOne alarms c this.clock (this.stateOf c.mountpoint)
  { this with
    mountpoints := Function.update this.mountpoints c.mountpoint (some checked.1)
    sends := this.sends ++
      checked.2.filterMap (spawnRuckus alarms c.mountpoint this.clock fork)
    actions := this.actions ++ checked.2.map fun action => (c.mountpoint, action) }

/-- One turn of the loop in `alarms_sigchld_cb` -/
def reap (this : Alarms) (pid : ℕ) (exitcode : ℤ) : Alarms :=
  match this.sends.find? (·.pid = pid) with
  | none => this
  | some s =>
    if exitcode = 0 then
      { this with
        mountpoints := Function.update this.mountpoints s.mountpoint
          ((this.mountpoints s.mountpoint).map (·.setLastSent s.type this.clock))
        sends := this.sends.eraseP (·.pid = pid)
        sent := this.sent ++ [⟨s.mountpoint, s.type, s.handed, this.clock⟩] }
    else { this with sends := this.sends.eraseP (·.pid = pid) }

/-- One step. The stations of a round are distinct, as they come from a hash table. -/
def step (this : Alarms) : Event → Option Alarms
  | .wait micros => some { this with clock := this.clock + micros }
  | .tick alarms candidates fork =>
    if (candidates.map AlarmCandidate.mountpoint).Nodup then
      some (candidates.foldl (check alarms fork) this)
    else none
  | .reap pid exitcode => some (this.reap pid exitcode)

/-- Before the first round -/
def new (clock : ℕ) : Alarms where
  mountpoints := fun _ => none
  sends := []
  clock := clock
  actions := []
  sent := []

/-- The clock starts at a time whose seconds are set. -/
def Starts (this : Alarms) : Prop := ∃ clock, tvSec clock ≠ 0 ∧ this = new clock

/-! ### A round, one check after the other -/

variable {alarms : ConfigAlarms} {fork : CString → AlarmEventType → Option ℕ} {this : Alarms}
  {c : AlarmCandidate}

theorem check_mountpoints_self : (check alarms fork this c).mountpoints c.mountpoint =
    some (alarmsCheckOne alarms c this.clock (this.stateOf c.mountpoint)).1 :=
  Function.update_self ..

theorem check_mountpoints_of_ne {mountpoint : CString} (h : mountpoint ≠ c.mountpoint) :
    (check alarms fork this c).mountpoints mountpoint = this.mountpoints mountpoint :=
  Function.update_of_ne h ..

theorem stateOf_check_self : (check alarms fork this c).stateOf c.mountpoint =
    (alarmsCheckOne alarms c this.clock (this.stateOf c.mountpoint)).1 := by
  rw [stateOf, check_mountpoints_self, Option.getD_some]

theorem stateOf_check_of_ne {mountpoint : CString} (h : mountpoint ≠ c.mountpoint) :
    (check alarms fork this c).stateOf mountpoint = this.stateOf mountpoint := by
  rw [stateOf, stateOf, check_mountpoints_of_ne h]

/-- **A round.** What each check keeps, when the round meets a condition for its station, is kept by
the round, when the checks leave the condition for other stations as it is. -/
theorem foldl_check {Inv : Alarms → Prop} {About : Alarms → AlarmCandidate → Prop}
    (hcheck : ∀ this c, Inv this → About this c → Inv (check alarms fork this c))
    (hothers : ∀ this c c', c'.mountpoint ≠ c.mountpoint → About this c' →
      About (check alarms fork this c) c')
    {candidates : List AlarmCandidate} (hnodup : (candidates.map AlarmCandidate.mountpoint).Nodup)
    (h : Inv this) (habout : ∀ c ∈ candidates, About this c) :
    Inv (candidates.foldl (check alarms fork) this) := by
  induction candidates generalizing this with
  | nil => exact h
  | cons c candidates ih =>
    rw [List.map_cons, List.nodup_cons] at hnodup
    rw [List.foldl_cons]
    refine ih hnodup.2 (hcheck this c h (habout c List.mem_cons_self)) fun c' hc' => ?_
    have hne : c'.mountpoint ≠ c.mountpoint := fun heq =>
      hnodup.1 (heq ▸ List.mem_map_of_mem hc')
    exact hothers this c c' hne (habout c' (List.mem_cons_of_mem c hc'))

end Alarms

end ChilopodCaster
