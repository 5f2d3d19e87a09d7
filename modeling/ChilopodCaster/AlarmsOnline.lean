import ChilopodCaster.Alarms
import ChilopodCaster.Lib.Answer

/-!
# The alarm about a station that is back

After an alarm about a station that is offline, an alarm is due when it is considered online again.
It is fired only when `offline_crossed_threshold` is set, so that an outage nobody was told about
ends silently. The flag is reset whenever `offline_since` is set anew, and that happens too when a
station was found live for a while, but not long enough to be considered online.

## Main definitions

* `OnlineAnnounced` — a station is considered online with an alarm, if the rate allows it
* `Alarms.Steady` — an outage does not begin anew before the station is considered online

## Main results

* `Alarms.reachable_onlineAnnounced` — each alarm about an outage is followed by one about its end
-/

namespace ChilopodCaster

open Answer

/-- An alarm that the station is offline. -/
def IsOffline (mountpoint : CString) (a : CString × AlarmAction) : Prop :=
  ∃ minutesDown, a = (mountpoint, .fire (.stationOffline minutesDown))

/-- The station is considered online. -/
def IsOnline (mountpoint : CString) (a : CString × AlarmAction) : Prop :=
  ∃ rateOk, a = (mountpoint, .online rateOk)

/-- The alarm that the station is online was fired just before, if the rate allowed it. -/
def IsAnnounced (mountpoint : CString) (between : List (CString × AlarmAction))
    (a : CString × AlarmAction) : Prop :=
  a = (mountpoint, .online true) → ∃ front minutesOutage minutesUp,
    between = front ++ [(mountpoint, .fire (.stationOnline minutesOutage minutesUp))]

/-- When a station is next considered online after an alarm that it is offline, the alarm that it is
online is fired, or the rate does not allow it. -/
def OnlineAnnounced (mountpoint : CString) (actions : List (CString × AlarmAction)) : Prop :=
  Answered (IsOffline mountpoint) (IsOnline mountpoint) (IsAnnounced mountpoint) actions

/-- Both alarms are enabled, and wanted for the station. -/
def BothWanted (alarms : ConfigAlarms) (mountpoint : CString) : Prop :=
  (alarms.stationOffline.isSome = true ∧ mountpointWants alarms mountpoint .stationOffline = true) ∧
    alarms.stationOnline.isSome = true ∧ mountpointWants alarms mountpoint .stationOnline = true

/-- An outage that is long enough begins anew before it has ended: the station is not found live,
after it was for a while, and has not been considered online. -/
def BeginsAnew (alarms : ConfigAlarms) (c : AlarmCandidate) (state : AlarmMountpointState) : Prop :=
  c.isLive = false ∧ state.wasLive = some false ∧ tvSec state.offlineSince = 0 ∧
    state.offlineCrossedThreshold = true ∧ 0 < alarms.stationOffline.getD 0

instance (alarms : ConfigAlarms) (mountpoint : CString) :
    Decidable (BothWanted alarms mountpoint) :=
  inferInstanceAs (Decidable ((_ ∧ _) ∧ _ ∧ _))

instance (alarms : ConfigAlarms) (c : AlarmCandidate) (state : AlarmMountpointState) :
    Decidable (BeginsAnew alarms c state) :=
  inferInstanceAs (Decidable (_ ∧ _ ∧ _ ∧ _ ∧ _))

/-! ### What a check leaves alone -/

/-- Of the outage, the same is recorded. -/
structure SameOutage (state state' : AlarmMountpointState) : Prop where
  wasLive : state'.wasLive = state.wasLive
  crossed : state'.offlineCrossedThreshold = state.offlineCrossedThreshold

section

variable {alarms : ConfigAlarms} {c : AlarmCandidate} {now : ℕ} {body : AlarmBody}
  {state state' : AlarmMountpointState}

theorem SameOutage.trans {state'' : AlarmMountpointState} (h : SameOutage state state')
    (h' : SameOutage state' state'') : SameOutage state state'' :=
  ⟨h'.wasLive.trans h.wasLive, h'.crossed.trans h.crossed⟩

theorem fireIfRateOk_snd : (fireIfRateOk alarms body now state).2 =
    if alarmRateOk state body.type now alarms.minIntervalMinutes then [.fire body] else [] := by
  rw [fireIfRateOk, apply_ite Prod.snd]
  rfl

theorem fireIfRateOk_subset : (fireIfRateOk alarms body now state).2 ⊆ [.fire body] := by
  rw [fireIfRateOk_snd]
  split
  · exact List.Subset.refl _
  · exact List.nil_subset _

theorem sameOutage_fireIfRateOk : SameOutage state (fireIfRateOk alarms body now state).1 := by
  rw [fireIfRateOk]
  split
  · rw [fireAlarm]
    dsimp only
    split
    · exact ⟨rfl, rfl⟩
    · exact ⟨rfl, rfl⟩
  · exact ⟨rfl, rfl⟩

/-- Only alarms of one type are fired. -/
def FiresOnly (type : AlarmEventType) (actions : List AlarmAction) : Prop :=
  ∀ action ∈ actions, ∃ body : AlarmBody, body.type = type ∧ action = .fire body

theorem firesOnly_nil {type : AlarmEventType} : FiresOnly type [] :=
  fun _ h => absurd h List.not_mem_nil

theorem firesOnly_fireIfRateOk : FiresOnly body.type (fireIfRateOk alarms body now state).2 :=
  fun _ h => ⟨body, rfl, List.mem_singleton.mp (fireIfRateOk_subset h)⟩

/-- Firing another alarm. -/
theorem sameOutage_fired (h : SameOutage state state') :
    SameOutage state (fireIfRateOk alarms body now state').1 ∧
      FiresOnly body.type (fireIfRateOk alarms body now state').2 :=
  ⟨h.trans sameOutage_fireIfRateOk, firesOnly_fireIfRateOk⟩

theorem sameOutage_checkLowSv : SameOutage state (checkLowSv alarms c now state).1 ∧
    FiresOnly .lowSv (checkLowSv alarms c now state).2 := by
  have hquiet (s : AlarmMountpointState) (h : SameOutage state s) :
      SameOutage state s ∧ FiresOnly .lowSv [] := ⟨h, firesOnly_nil⟩
  unfold checkLowSv
  split
  · split
    · exact hquiet _ ⟨rfl, rfl⟩
    · split
      · dsimp only
        split
        · exact sameOutage_fired ⟨rfl, rfl⟩
        · exact hquiet _ ⟨rfl, rfl⟩
      · exact hquiet _ ⟨rfl, rfl⟩
  · exact hquiet _ ⟨rfl, rfl⟩

theorem sameOutage_checkDrift : SameOutage state (checkDrift alarms c now state).1 ∧
    FiresOnly .positionDrift (checkDrift alarms c now state).2 := by
  have hquiet (s : AlarmMountpointState) (h : SameOutage state s) :
      SameOutage state s ∧ FiresOnly .positionDrift [] := ⟨h, firesOnly_nil⟩
  unfold checkDrift
  split
  · split
    · exact hquiet _ ⟨rfl, rfl⟩
    · split
      · dsimp only
        split
        · exact sameOutage_fired ⟨rfl, rfl⟩
        · exact hquiet _ ⟨rfl, rfl⟩
      · exact hquiet _ ⟨rfl, rfl⟩
  · exact hquiet _ ⟨rfl, rfl⟩

end

/-! ### The outage and the log -/

/-- While an alarm about an outage is the last word on a station, the station is recorded as not
live, and the outage as long enough. -/
structure Linked (mountpoint : CString) (actions : List (CString × AlarmAction))
    (state : AlarmMountpointState) : Prop where
  announced : OnlineAnnounced mountpoint actions
  awaiting : Awaiting (IsOffline mountpoint) (IsOnline mountpoint) actions →
    state.wasLive = some false ∧ state.offlineCrossedThreshold = true

section

variable {alarms : ConfigAlarms} {c : AlarmCandidate} {mountpoint : CString} {now : ℕ}
  {state state' : AlarmMountpointState} {actions new : List (CString × AlarmAction)}

/-- Actions that are neither. -/
theorem Linked.append (h : Linked mountpoint actions state) (hsame : SameOutage state state')
    (hnew : ∀ a ∈ new, ¬IsOffline mountpoint a ∧ ¬IsOnline mountpoint a) :
    Linked mountpoint (actions ++ new) state' := by
  refine ⟨h.announced.append fun a ha => (hnew a ha).2, fun hawaiting => ?_⟩
  rw [hsame.wasLive, hsame.crossed]
  exact h.awaiting (hawaiting.of_append fun a ha => (hnew a ha).1)

/-- No action. -/
theorem Linked.same (h : Linked mountpoint actions state) (hsame : SameOutage state state') :
    Linked mountpoint (actions ++ ([] : List AlarmAction).map (Prod.mk mountpoint)) state' :=
  h.append hsame fun _ ha => absurd ha List.not_mem_nil

/-- The alarms of one other type are neither. -/
theorem neither_of_firesOnly {type : AlarmEventType} {fired : List AlarmAction}
    (hfired : FiresOnly type fired) (htype : type ≠ .stationOffline) :
    ∀ a ∈ fired.map (Prod.mk mountpoint), ¬IsOffline mountpoint a ∧ ¬IsOnline mountpoint a := by
  rintro _ ha
  obtain ⟨action, haction, rfl⟩ := List.mem_map.mp ha
  obtain ⟨body, rfl, rfl⟩ := hfired action haction
  refine ⟨?_, ?_⟩
  · rintro ⟨minutesDown, hoffline⟩
    exact htype (congrArg AlarmBody.type (AlarmAction.fire.inj (Prod.mk.inj hoffline).2))
  · rintro ⟨rateOk, honline⟩
    exact AlarmAction.noConfusion (Prod.mk.inj honline).2

/-- **The station is back.** -/
theorem Linked.checkBackOnline (h : Linked mountpoint actions state)
    (hwanted : BothWanted alarms mountpoint) :
    Linked mountpoint
      (actions ++ (checkBackOnline alarms mountpoint now state).2.map (Prod.mk mountpoint))
      (checkBackOnline alarms mountpoint now state).1 := by
  unfold ChilopodCaster.checkBackOnline
  extract_lets state' enabled body fired
  split
  · have hfired : FiresOnly .stationOnline fired.2 := by
      unfold fired
      split
      · exact @firesOnly_fireIfRateOk alarms now body state'
      · exact firesOnly_nil
    have hneither := @neither_of_firesOnly mountpoint _ _ hfired (by decide)
    rw [List.map_append, List.map_singleton, ← List.append_assoc]
    refine ⟨(h.announced.append fun a ha => (hneither a ha).2).concat ?_, fun hawaiting => ?_⟩
    · intro _ before x between hlog hx hbetween hrate
      have hrateOk : alarmRateOk state' .stationOnline now alarms.minIntervalMinutes = true :=
        AlarmAction.online.inj (Prod.mk.inj hrate).2
      have hawaiting : Awaiting (IsOffline mountpoint) (IsOnline mountpoint) _ :=
        ⟨before, x, between, hlog, hx, hbetween⟩
      have hcrossed := (h.awaiting (hawaiting.of_append fun a ha => (hneither a ha).1)).2
      have henabled : enabled = true := by
        unfold enabled
        rw [onlineEnabled, hwanted.2.1, hwanted.2.2, hcrossed, Bool.or_true]
        rfl
      have hone : fired.2 = [.fire body] := by
        unfold fired
        rw [henabled, if_pos rfl, fireIfRateOk_snd]
        exact if_pos hrateOk
      rw [hone, List.map_singleton] at hlog
      obtain ⟨minutesDown, rfl⟩ := hx
      obtain ⟨front, hfront⟩ := exists_concat_of_ne hlog fun heq =>
        AlarmBody.noConfusion (AlarmAction.fire.inj (Prod.mk.inj heq).2)
      exact ⟨front, _, _, hfront⟩
    · rcases awaiting_concat.mp hawaiting with ⟨minutesDown, hoffline⟩ | ⟨-, hdone⟩
      · exact AlarmAction.noConfusion (Prod.mk.inj hoffline).2
      · exact absurd ⟨_, rfl⟩ hdone
  · exact h.same ⟨rfl, rfl⟩

/-- **The station is not found live.** -/
theorem Linked.checkOffline (h : Linked mountpoint actions state)
    (hwanted : BothWanted alarms mountpoint)
    (hanew : ¬(state.wasLive = some false ∧ tvSec state.offlineSince = 0 ∧
      state.offlineCrossedThreshold = true ∧ 0 < alarms.stationOffline.getD 0)) :
    Linked mountpoint
      (actions ++ (checkOffline alarms mountpoint now state).2.map (Prod.mk mountpoint))
      (checkOffline alarms mountpoint now state).1 := by
  unfold ChilopodCaster.checkOffline
  extract_lets state'
  split
  · have hsame : SameOutage { state' with offlineCrossedThreshold := true } _ :=
      @sameOutage_fireIfRateOk alarms now
        (.stationOffline (printedMinutes now state'.offlineSince)) _
    refine ⟨h.announced.append fun a ha => ?_, fun _ => ⟨hsame.wasLive, hsame.crossed⟩⟩
    obtain ⟨action, haction, rfl⟩ := List.mem_map.mp ha
    obtain rfl := List.mem_singleton.mp (fireIfRateOk_subset haction)
    rintro ⟨rateOk, honline⟩
    exact AlarmAction.noConfusion (Prod.mk.inj honline).2
  · next hnot =>
    refine ⟨h.announced.append fun a ha => absurd ha List.not_mem_nil, fun hawaiting => ?_⟩
    rw [List.map_nil, List.append_nil] at hawaiting
    obtain ⟨hwasLive, hcrossed⟩ := h.awaiting hawaiting
    refine ⟨rfl, ?_⟩
    -- an outage that begins is long enough at once only if the configuration asks for no time
    have hreached : ¬(minutesReached now state'.offlineSince (alarms.stationOffline.getD 0)) :=
      fun hreached => hnot ⟨hwanted.1.1, hwanted.1.2, hreached⟩
    unfold state'
    by_cases hsince : tvSec state.offlineSince = 0
    · refine absurd ⟨hwasLive, hsince, hcrossed, ?_⟩ hanew
      unfold state' at hreached
      rw [minutesReached, sinceOr, if_pos hsince, sub_self, decide_eq_true_eq] at hreached
      omega
    · rw [if_neg hsince]
      exact hcrossed

/-- **What is found about one station.** -/
theorem Linked.alarmsCheckOne (h : Linked c.mountpoint actions state)
    (hwanted : BothWanted alarms c.mountpoint) (hanew : ¬BeginsAnew alarms c state) :
    Linked c.mountpoint
      (actions ++ (alarmsCheckOne alarms c now state).2.map (Prod.mk c.mountpoint))
      (alarmsCheckOne alarms c now state).1 := by
  unfold ChilopodCaster.alarmsCheckOne
  extract_lets live lowSv drift
  have hlive : Linked c.mountpoint (actions ++ live.2.map (Prod.mk c.mountpoint)) live.1 := by
    unfold live checkLive
    split
    · dsimp only
      split
      · exact ⟨(h.checkBackOnline hwanted).announced, (h.checkBackOnline hwanted).awaiting⟩
      · exact h.same ⟨rfl, rfl⟩
    · next hlive =>
      exact h.checkOffline hwanted fun hbegins => hanew ⟨Bool.eq_false_iff.mpr hlive, hbegins⟩
  obtain ⟨hsame, hfired⟩ := @sameOutage_checkLowSv alarms c now live.1
  obtain ⟨hsame', hfired'⟩ := @sameOutage_checkDrift alarms c now lowSv.1
  rw [List.map_append, List.map_append, ← List.append_assoc, ← List.append_assoc]
  exact (hlive.append hsame (neither_of_firesOnly hfired (by decide))).append hsame'
    (neither_of_firesOnly hfired' (by decide))

end

/-! ### Runs -/

namespace Alarms

variable {mountpoint : CString} {this this' : Alarms} {alarms : ConfigAlarms} {c : AlarmCandidate}
  {fork : CString → AlarmEventType → Option ℕ}

/-- The configuration wants both alarms for the station. -/
def Wanted (mountpoint : CString) : Event → Prop
  | .tick alarms _ _ => BothWanted alarms mountpoint
  | _ => True

instance (mountpoint : CString) : DecidablePred (Wanted mountpoint)
  | .tick alarms _ _ => inferInstanceAs (Decidable (BothWanted alarms mountpoint))
  | .wait _ => .isTrue trivial
  | .reap _ _ => .isTrue trivial

/-- The check of the station does not find an outage that begins anew. -/
def SteadyAbout (mountpoint : CString) (alarms : ConfigAlarms) (this : Alarms)
    (c : AlarmCandidate) : Prop :=
  c.mountpoint = mountpoint → ¬BeginsAnew alarms c (this.stateOf mountpoint)

/-- The configuration wants both alarms for the station, and no outage of it begins anew. -/
def Steady (mountpoint : CString) (this : Alarms) : Event → Prop
  | .tick alarms candidates _ =>
    BothWanted alarms mountpoint ∧ ∀ c ∈ candidates, SteadyAbout mountpoint alarms this c
  | _ => True

instance (mountpoint : CString) (this : Alarms) : DecidablePred (Steady mountpoint this)
  | .tick alarms candidates _ => inferInstanceAs (Decidable (BothWanted alarms mountpoint ∧
      ∀ c ∈ candidates, c.mountpoint = mountpoint →
        ¬BeginsAnew alarms c (this.stateOf mountpoint)))
  | .wait _ => .isTrue trivial
  | .reap _ _ => .isTrue trivial

/-- A check keeps the link. -/
theorem linked_check (h : Linked mountpoint this.actions (this.stateOf mountpoint))
    (hwanted : BothWanted alarms mountpoint) (hsteady : SteadyAbout mountpoint alarms this c) :
    Linked mountpoint (check alarms fork this c).actions
      ((check alarms fork this c).stateOf mountpoint) := by
  rcases eq_or_ne mountpoint c.mountpoint with rfl | hne
  · rw [stateOf_check_self]
    exact h.alarmsCheckOne hwanted (hsteady rfl)
  · rw [stateOf_check_of_ne hne]
    refine h.append ⟨rfl, rfl⟩ fun a ha => ?_
    obtain ⟨action, -, rfl⟩ := List.mem_map.mp ha
    refine ⟨?_, ?_⟩
    · rintro ⟨minutesDown, hoffline⟩
      exact hne (Prod.mk.inj hoffline).1.symm
    · rintro ⟨rateOk, honline⟩
      exact hne (Prod.mk.inj honline).1.symm

/-- A check leaves the outages of other stations alone. -/
theorem SteadyAbout.check {c' : AlarmCandidate} (h : SteadyAbout mountpoint alarms this c')
    (hne : c'.mountpoint ≠ c.mountpoint) :
    SteadyAbout mountpoint alarms (check alarms fork this c) c' := by
  rintro rfl
  rw [stateOf_check_of_ne hne]
  exact h rfl

/-- The end of a helper leaves outages alone. -/
theorem sameOutage_reap (this : Alarms) (pid : ℕ) (exitcode : ℤ) (mountpoint : CString) :
    SameOutage (this.stateOf mountpoint) ((this.reap pid exitcode).stateOf mountpoint) := by
  unfold reap
  split
  · exact ⟨rfl, rfl⟩
  · next s _ =>
    split
    · rw [stateOf, stateOf]
      rcases eq_or_ne mountpoint s.mountpoint with rfl | hne
      · dsimp only
        rw [Function.update_self]
        cases this.mountpoints s.mountpoint with
        | none => exact ⟨rfl, rfl⟩
        | some state => exact ⟨rfl, rfl⟩
      · dsimp only
        rw [Function.update_of_ne hne]
        exact ⟨rfl, rfl⟩
    · exact ⟨rfl, rfl⟩

theorem actions_reap (this : Alarms) (pid : ℕ) (exitcode : ℤ) :
    (this.reap pid exitcode).actions = this.actions := by
  unfold reap
  split
  · rfl
  · split
    · rfl
    · rfl

/-- One step of a steady run. -/
theorem linked_step {event : Event} (h : Linked mountpoint this.actions (this.stateOf mountpoint))
    (hok : Steady mountpoint this event) (hstep : this.step event = some this') :
    Linked mountpoint this'.actions (this'.stateOf mountpoint) := by
  cases event with
  | wait micros =>
    obtain rfl := Option.some.inj hstep
    exact h
  | tick alarms candidates fork =>
    rw [step] at hstep
    split at hstep
    · next hnodup =>
      obtain rfl := Option.some.inj hstep
      exact @foldl_check alarms fork this
        (fun this => Linked mountpoint this.actions (this.stateOf mountpoint))
        (SteadyAbout mountpoint alarms) (fun _ _ h hc => linked_check h hok.1 hc)
        (fun _ _ _ hne hc => hc.check hne) candidates hnodup h hok.2
    · contradiction
  | reap pid exitcode =>
    obtain rfl := Option.some.inj hstep
    rw [actions_reap]
    have hsame := sameOutage_reap this pid exitcode mountpoint
    refine ⟨h.announced, fun hawaiting => ?_⟩
    rw [hsame.wasLive, hsame.crossed]
    exact h.awaiting hawaiting

/-- **The alarm about a station that is back.** When no outage begins anew before the station is
considered online, each alarm about an outage is followed by one about its end. -/
theorem reachable_onlineAnnounced
    (h : Transition.Reachable Starts (Steady mountpoint) step this) :
    OnlineAnnounced mountpoint this.actions := by
  have hlinked : Linked mountpoint this.actions (this.stateOf mountpoint) := by
    refine h.invariant ?_ fun _ _ _ hlinked hok hstep => linked_step hlinked hok hstep
    rintro _ ⟨clock, -, rfl⟩
    exact ⟨answered_nil, fun hawaiting => absurd hawaiting not_awaiting_nil⟩
  exact hlinked.announced

/-- An alarm after a minute offline, and one after five minutes online. -/
def bothAlarms : ConfigAlarms where
  smtp := none
  recipients := [⟨none, cstr "ops", none⟩]
  mountpoints := []
  subject := none
  minIntervalMinutes := 0
  ruckusPath := none
  emailTemplate := none
  stationOffline := some 1
  stationOnline := some 5
  lowSvCount := none
  positionDrift := none

/-- A round that finds one station live, or not. -/
def found (isLive : Bool) : Event :=
  .tick bothAlarms [⟨cstr "BASE", isLive, none, none⟩] fun _ _ => none

/-- A station is offline for a minute, and then online for five. -/
theorem reachable_onlineAnnounced_outage :
    ∃ this : Alarms, this.actions = [(cstr "BASE", .fire (.stationOffline 1)),
      (cstr "BASE", .fire (.stationOnline 0 5)), (cstr "BASE", .online true)] ∧
        OnlineAnnounced (cstr "BASE") this.actions := by
  have hobserve : (([found false, .wait 60000000, found false, .wait 30000000, found true,
      .wait 300000000, found true] : List Event).foldlM
      (fun (s : Alarms) l => if Steady (cstr "BASE") s l then s.step l else none)
        (new 1000000)).map (fun s => s.actions) = some [(cstr "BASE", .fire (.stationOffline 1)),
      (cstr "BASE", .fire (.stationOnline 0 5)), (cstr "BASE", .online true)] := by
    decide +kernel
  obtain ⟨this, hrun, hactions⟩ := Option.map_eq_some_iff.mp hobserve
  exact ⟨this, hactions, reachable_onlineAnnounced
    (Transition.reachable_of_foldlM (.refl ⟨1000000, by decide, rfl⟩) hrun)⟩

/-- A station about which an alarm was fired is found live once, then not, and then live again. It
is considered online at once, and without an alarm. -/
theorem not_onlineAnnounced_flap :
    ¬ ∀ (mountpoint : CString) (this : Alarms),
      Transition.Reachable Starts (fun _ event => Wanted mountpoint event) step this →
        OnlineAnnounced mountpoint this.actions := by
  intro hall
  have hobserve : (([found false, .wait 60000000, found false, .wait 30000000, found true,
      .wait 30000000, found false, .wait 30000000, found true] : List Event).foldlM
      (fun (s : Alarms) l => if Wanted (cstr "BASE") l then s.step l else none)
        (new 1000000)).map (fun s => s.actions) =
      some [(cstr "BASE", .fire (.stationOffline 1)), (cstr "BASE", .online true)] := by
    decide +kernel
  obtain ⟨this, hrun, hactions⟩ := Option.map_eq_some_iff.mp hobserve
  have hannounced := hall (cstr "BASE") this
    (Transition.reachable_of_foldlM (.refl ⟨1000000, by decide, rfl⟩) hrun)
  rw [hactions] at hannounced
  obtain ⟨front, _, _, hfront⟩ := hannounced [] _ [] _ [] rfl ⟨1, rfl⟩
    (fun _ hmem => absurd hmem List.not_mem_nil) ⟨true, rfl⟩ rfl
  exact List.append_ne_nil_of_right_ne_nil front (List.cons_ne_nil _ _) hfront.symm

end Alarms

end ChilopodCaster
