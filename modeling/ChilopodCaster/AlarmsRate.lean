import ChilopodCaster.Alarms

/-!
# The rate of messages

An alarm is not fired when the last message about it was sent less than `min_interval_minutes` ago.
When a message was sent is recorded only once its helper has been waited for. Until then the next
round of the timer finds the alarm due and starts another helper.

## Main definitions

* `RateLimited` — of two messages of one kind about one station, one follows the other late enough
* `Alarms.Patient` — a round that fires an alarm finds no helper for it, and the interval over

## Main results

* `Alarms.reachable_rateLimited` — the rate, when rounds are patient
-/

namespace ChilopodCaster

/-- The messages are about the same station, and of the same type. -/
def Notification.Same (a b : Notification) : Prop := a.mountpoint = b.mountpoint ∧ a.type = b.type

/-- Two messages of one type about one station are handed to helpers at least so many minutes
apart. -/
def RateLimited (minutes : ℤ) (sent : List Notification) : Prop :=
  sent.Pairwise fun a b => a.Same b → 60000000 * minutes ≤ |(b.handed : ℤ) - a.handed|

/-! ### What a check fires -/

/-- The limit depends on the last message only. -/
theorem alarmRateOk_congr {state state' : AlarmMountpointState} {type : AlarmEventType}
    (h : state.lastSent type = state'.lastSent type) (now : ℕ) (minutes : ℤ) :
    alarmRateOk state type now minutes = alarmRateOk state' type now minutes := by
  rw [alarmRateOk, alarmRateOk, h]

/-- What is left of a state, and what is fired: alarms of these types, each once, if the rate allows
it. An alarm counts as sent only if nobody receives it. -/
structure Checked (alarms : ConfigAlarms) (now : ℕ) (types : List AlarmEventType)
    (state : AlarmMountpointState) (r : AlarmMountpointState × List AlarmAction) : Prop where
  lastSent : ∀ type, r.1.lastSent type = state.lastSent type ∨ r.1.lastSent type = now
  others : ∀ type, type ∉ types → r.1.lastSent type = state.lastSent type
  rateOk : ∀ body, .fire body ∈ r.2 → alarmRateOk state body.type now alarms.minIntervalMinutes
  fires : ∀ body, .fire body ∈ r.2 → body.type ∈ types
  once : r.2.Pairwise fun a b => ∀ body body', a = .fire body → b = .fire body' →
    body.type ≠ body'.type

namespace Checked

variable {alarms : ConfigAlarms} {now : ℕ} {types types' : List AlarmEventType}
  {state : AlarmMountpointState} {r r' : AlarmMountpointState × List AlarmAction}

/-- Nothing is fired, and no message is recorded. -/
theorem quiet {state' : AlarmMountpointState} (h : state'.lastSent = state.lastSent) :
    Checked alarms now types state (state', []) :=
  ⟨fun _ => .inl (congrFun h _), fun _ _ => congrFun h _,
    fun _ hfire => absurd hfire List.not_mem_nil, fun _ hfire => absurd hfire List.not_mem_nil,
    List.Pairwise.nil⟩

/-- The state before can be another one with the same messages, and so can the one after. -/
theorem congr {state' s : AlarmMountpointState} (h : Checked alarms now types state r)
    (hstate : state.lastSent = state'.lastSent) (hs : s.lastSent = r.1.lastSent) :
    Checked alarms now types state' (s, r.2) :=
  ⟨fun type => by rw [hs, ← hstate]; exact h.lastSent type,
    fun type htype => by rw [hs, ← hstate]; exact h.others type htype,
    fun body hbody => alarmRateOk_congr (congrFun hstate body.type) .. ▸ h.rateOk body hbody,
    h.fires, h.once⟩

theorem mono (h : Checked alarms now types state r) (hsub : types ⊆ types') :
    Checked alarms now types' state r :=
  ⟨h.lastSent, fun type htype => h.others type fun hmem => htype (hsub hmem), h.rateOk,
    fun body hbody => hsub (h.fires body hbody), h.once⟩

/-- One check after the other, for other types. -/
theorem append (h : Checked alarms now types state r) (h' : Checked alarms now types' r.1 r')
    (hdisjoint : ∀ type ∈ types, type ∉ types') :
    Checked alarms now (types ++ types') state (r'.1, r.2 ++ r'.2) where
  lastSent type := by
    rcases h'.lastSent type with heq | hnow
    · rw [heq]
      exact h.lastSent type
    · exact .inr hnow
  others type htype := by
    rw [List.mem_append, not_or] at htype
    rw [h'.others type htype.2, h.others type htype.1]
  rateOk body hbody := by
    rcases List.mem_append.mp hbody with hbody | hbody
    · exact h.rateOk body hbody
    · have hnot : body.type ∉ types := fun hmem => hdisjoint _ hmem (h'.fires body hbody)
      exact alarmRateOk_congr (h.others _ hnot) .. ▸ h'.rateOk body hbody
  fires body hbody := by
    rcases List.mem_append.mp hbody with hbody | hbody
    · exact List.mem_append_left _ (h.fires body hbody)
    · exact List.mem_append_right _ (h'.fires body hbody)
  once := by
    refine List.pairwise_append.mpr ⟨h.once, h'.once, ?_⟩
    rintro a ha b hb body body' rfl rfl heq
    exact hdisjoint _ (h.fires body ha) (heq ▸ h'.fires body' hb)

/-- An action that fires nothing. -/
theorem concat_online (h : Checked alarms now types state r) (rateOk : Bool) :
    Checked alarms now types state (r.1, r.2 ++ [.online rateOk]) where
  lastSent := h.lastSent
  others := h.others
  rateOk body hbody := by
    rcases List.mem_append.mp hbody with hbody | hbody
    · exact h.rateOk body hbody
    · exact absurd (List.mem_singleton.mp hbody) (by simp)
  fires body hbody := by
    rcases List.mem_append.mp hbody with hbody | hbody
    · exact h.fires body hbody
    · exact absurd (List.mem_singleton.mp hbody) (by simp)
  once := by
    refine List.pairwise_append.mpr ⟨h.once, List.pairwise_singleton _ _, ?_⟩
    rintro a - b hb body body' - rfl
    exact absurd (List.mem_singleton.mp hb) (by simp)

theorem fireIfRateOk (alarms : ConfigAlarms) (body : AlarmBody) (now : ℕ)
    (state : AlarmMountpointState) :
    Checked alarms now [body.type] state (fireIfRateOk alarms body now state) := by
  rw [ChilopodCaster.fireIfRateOk]
  split
  · next hrate =>
    rw [fireAlarm]
    refine ⟨fun type' => ?_, fun type' htype' => ?_, fun body' hbody' => ?_,
      fun body' hbody' => ?_, List.pairwise_singleton _ _⟩
    · dsimp only
      split
      · exact .inl rfl
      · rcases eq_or_ne type' body.type with rfl | hne
        · exact .inr (state.lastSent_setLastSent_self body.type now)
        · exact .inl (AlarmMountpointState.lastSent_setLastSent_of_ne hne now)
    · have hne : type' ≠ body.type := mt List.mem_singleton.mpr htype'
      dsimp only
      split
      · rfl
      · exact AlarmMountpointState.lastSent_setLastSent_of_ne hne now
    · obtain rfl := AlarmAction.fire.inj (List.mem_singleton.mp hbody')
      exact hrate
    · obtain rfl := AlarmAction.fire.inj (List.mem_singleton.mp hbody')
      exact List.mem_singleton_self _
  · exact quiet rfl

end Checked

section

variable {alarms : ConfigAlarms} {c : AlarmCandidate} {now : ℕ} {state : AlarmMountpointState}

/-- The alarm is fired only if it is enabled. -/
theorem checked_ite (enabled : Bool) {body : AlarmBody} {state' : AlarmMountpointState}
    (h : state'.lastSent = state.lastSent) :
    Checked alarms now [body.type] state
      (if enabled then fireIfRateOk alarms body now state' else (state', [])) := by
  cases enabled with
  | true => exact (Checked.fireIfRateOk alarms body now state').congr h rfl
  | false => exact Checked.quiet h

theorem checked_checkBackOnline (mountpoint : CString) :
    Checked alarms now [.stationOnline] state (checkBackOnline alarms mountpoint now state) := by
  unfold checkBackOnline
  extract_lets state' enabled body fired
  split
  · have hfired : Checked alarms now [body.type] state fired := checked_ite _ rfl
    exact (hfired.concat_online _).congr rfl rfl
  · exact Checked.quiet rfl

theorem checked_checkLive :
    Checked alarms now [.stationOnline, .stationOffline] state (checkLive alarms c now state) := by
  rw [checkLive]
  split
  · extract_lets checked
    have hchecked : Checked alarms now [.stationOnline, .stationOffline] state checked := by
      unfold checked
      split
      · exact (checked_checkBackOnline c.mountpoint).mono (by decide)
      · exact Checked.quiet rfl
    exact hchecked.congr rfl rfl
  · unfold checkOffline
    extract_lets state'
    split
    · have hfired (s : AlarmMountpointState) (minutesDown : ℤ) : Checked alarms now
          [.stationOnline, .stationOffline] s
          (fireIfRateOk alarms (.stationOffline minutesDown) now s) :=
        (Checked.fireIfRateOk alarms (.stationOffline minutesDown) now s).mono
          (List.subset_cons_self _ _)
      exact (hfired _ _).congr rfl rfl
    · exact Checked.quiet rfl

theorem checked_checkLowSv :
    Checked alarms now [.lowSv] state (checkLowSv alarms c now state) := by
  unfold checkLowSv
  split
  · split
    · exact Checked.quiet rfl
    · split
      · dsimp only
        split
        · exact (Checked.fireIfRateOk alarms (.lowSv _) now _).congr rfl rfl
        · exact Checked.quiet rfl
      · exact Checked.quiet rfl
  · exact Checked.quiet rfl

theorem checked_checkDrift :
    Checked alarms now [.positionDrift] state (checkDrift alarms c now state) := by
  unfold checkDrift
  split
  · split
    · exact Checked.quiet rfl
    · split
      · dsimp only
        split
        · exact (Checked.fireIfRateOk alarms (.positionDrift _) now _).congr rfl rfl
        · exact Checked.quiet rfl
      · exact Checked.quiet rfl
  · exact Checked.quiet rfl

/-- **What a check fires**: each alarm at most once. -/
theorem checked_alarmsCheckOne :
    Checked alarms now [.stationOnline, .stationOffline, .lowSv, .positionDrift] state
      (alarmsCheckOne alarms c now state) := by
  have hdrift (state' : AlarmMountpointState) :
      Checked alarms now [.positionDrift] state' (checkDrift alarms c now state') :=
    checked_checkDrift
  have htail (state' : AlarmMountpointState) := checked_checkLowSv.append
    (hdrift (checkLowSv alarms c now state').1) (by decide)
  exact checked_checkLive.append (htail _) (by decide)

end

/-! ### Patient rounds -/

/-- The alarms that are fired. -/
def firedTypes (actions : List AlarmAction) : List AlarmEventType :=
  actions.filterMap fun
    | .fire body => some body.type
    | .online _ => none

theorem mem_firedTypes {actions : List AlarmAction} {body : AlarmBody}
    (h : .fire body ∈ actions) : body.type ∈ firedTypes actions :=
  List.mem_filterMap.mpr ⟨_, h, rfl⟩

namespace Alarms

variable {m : ℤ} {this this' : Alarms} {alarms : ConfigAlarms} {c : AlarmCandidate}
  {fork : CString → AlarmEventType → Option ℕ}

/-- No helper for the alarm is waited for. -/
def NoneInFlight (this : Alarms) (mountpoint : CString) (type : AlarmEventType) : Prop :=
  ∀ s ∈ this.sends, s.mountpoint = mountpoint → s.type ≠ type

/-- In the very second in which the interval since the last message ends, it is over. The code does
not look at the microseconds. -/
def IntervalOver (m : ℤ) (this : Alarms) (mountpoint : CString) (type : AlarmEventType) : Prop :=
  (tvSec this.clock : ℤ) = tvSec ((this.stateOf mountpoint).lastSent type) + 60 * m →
    (this.stateOf mountpoint).lastSent type % 1000000 ≤ this.clock % 1000000

/-- What is fired about a station has no helper that is waited for. -/
def PatientAbout (m : ℤ) (alarms : ConfigAlarms) (this : Alarms) (c : AlarmCandidate) : Prop :=
  ∀ type ∈ firedTypes (alarmsCheckOne alarms c this.clock (this.stateOf c.mountpoint)).2,
    this.NoneInFlight c.mountpoint type ∧ IntervalOver m this c.mountpoint type

/-- The interval is configured, and rounds are patient. -/
def Patient (m : ℤ) (this : Alarms) : Event → Prop
  | .tick alarms candidates _ =>
    alarms.minIntervalMinutes = m ∧ ∀ c ∈ candidates, PatientAbout m alarms this c
  | _ => True

instance (m : ℤ) (this : Alarms) : DecidablePred (Patient m this)
  | .tick alarms candidates _ => inferInstanceAs (Decidable (alarms.minIntervalMinutes = m ∧
      ∀ c ∈ candidates,
        ∀ type ∈ firedTypes (alarmsCheckOne alarms c this.clock (this.stateOf c.mountpoint)).2,
          (∀ s ∈ this.sends, s.mountpoint = c.mountpoint → s.type ≠ type) ∧
            ((tvSec this.clock : ℤ) =
                tvSec ((this.stateOf c.mountpoint).lastSent type) + 60 * m →
              (this.stateOf c.mountpoint).lastSent type % 1000000 ≤ this.clock % 1000000)))
  | .wait _ => .isTrue trivial
  | .reap _ _ => .isTrue trivial

/-! ### One round -/

/-- A message was recorded with its station no earlier than its helper was started. -/
def Recorded (this : Alarms) (n : Notification) : Prop :=
  ∃ state, this.mountpoints n.mountpoint = some state ∧ n.handed ≤ state.lastSent n.type ∧
    state.lastSent n.type ≤ this.clock ∧ tvSec (state.lastSent n.type) ≠ 0

/-- What links the messages, the helpers and the times recorded with the stations. -/
structure Limited (m : ℤ) (this : Alarms) : Prop where
  clock : tvSec this.clock ≠ 0
  recorded : ∀ n ∈ this.sent, this.Recorded n
  spaced : this.sent.Pairwise fun a b => a.Same b → (a.handed : ℤ) + 60000000 * m ≤ b.handed
  started : ∀ s ∈ this.sends, s.handed ≤ this.clock ∧ (this.mountpoints s.mountpoint).isSome
  waiting : ∀ s ∈ this.sends, ∀ n ∈ this.sent, n.mountpoint = s.mountpoint → n.type = s.type →
    (n.handed : ℤ) + 60000000 * m ≤ s.handed
  distinct : this.sends.Pairwise fun s s' => s.mountpoint = s'.mountpoint → s.type ≠ s'.type

theorem limited_new {clock : ℕ} (h : tvSec clock ≠ 0) : Limited m (new clock) where
  clock := h
  recorded _ hn := absurd hn List.not_mem_nil
  spaced := .nil
  started _ hs := absurd hs List.not_mem_nil
  waiting _ hs := absurd hs List.not_mem_nil
  distinct := .nil

/-- The rate allows an alarm when the interval since the last message is over. -/
theorem interval_of_alarmRateOk {state : AlarmMountpointState} {type : AlarmEventType} {now : ℕ}
    (hrate : alarmRateOk state type now m = true) (hset : tvSec (state.lastSent type) ≠ 0)
    (hover : (tvSec now : ℤ) = tvSec (state.lastSent type) + 60 * m →
      state.lastSent type % 1000000 ≤ now % 1000000) :
    (state.lastSent type : ℤ) + 60000000 * m ≤ now := by
  rw [alarmRateOk, minutesReached, Bool.or_eq_true, decide_eq_true_eq, decide_eq_true_eq] at hrate
  have hminutes := hrate.resolve_left hset
  rw [tvSec, tvSec] at hminutes hover
  omega

/-- The helper that an action starts is for the alarm that it fires. -/
theorem eq_fire_of_spawnRuckus {action : AlarmAction} {mountpoint : CString} {now : ℕ}
    {s : AlarmSend} (h : spawnRuckus alarms mountpoint now fork action = some s) :
    (∃ body : AlarmBody, body.type = s.type ∧ action = .fire body) ∧
      s.mountpoint = mountpoint ∧ s.handed = now := by
  cases action with
  | fire body =>
    rw [spawnRuckus] at h
    split at h
    · obtain ⟨pid, -, rfl⟩ := Option.map_eq_some_iff.mp h
      exact ⟨⟨body, rfl, rfl⟩, rfl, rfl⟩
    · contradiction
  | online _ => contradiction

/-- A helper that a round starts. -/
theorem fire_mem_of_mem_sends {actions : List AlarmAction} {mountpoint : CString} {now : ℕ}
    {s : AlarmSend} (h : s ∈ actions.filterMap (spawnRuckus alarms mountpoint now fork)) :
    (∃ body : AlarmBody, body.type = s.type ∧ .fire body ∈ actions) ∧
      s.mountpoint = mountpoint ∧ s.handed = now := by
  obtain ⟨action, haction, hs⟩ := List.mem_filterMap.mp h
  obtain ⟨⟨body, hbody, rfl⟩, hmountpoint, hhanded⟩ := eq_fire_of_spawnRuckus hs
  exact ⟨⟨body, hbody, haction⟩, hmountpoint, hhanded⟩

/-- A check keeps what was recorded about messages. -/
theorem Recorded.check {n : Notification} (h : this.Recorded n) (hclock : tvSec this.clock ≠ 0) :
    (check alarms fork this c).Recorded n := by
  obtain ⟨state, hstate, hhanded, hle, hset⟩ := h
  rcases eq_or_ne n.mountpoint c.mountpoint with heq | hne
  · have hstateOf : this.stateOf c.mountpoint = state := by
      rw [stateOf, ← heq, hstate, Option.getD_some]
    refine ⟨_, (congrArg _ heq).trans check_mountpoints_self, ?_⟩
    have hchecked : Checked alarms this.clock _ (this.stateOf c.mountpoint)
        (alarmsCheckOne alarms c this.clock (this.stateOf c.mountpoint)) := checked_alarmsCheckOne
    rcases hchecked.lastSent n.type with hkept | hnow
    · rw [hkept, hstateOf]
      exact ⟨hhanded, hle, hset⟩
    · rw [hnow]
      exact ⟨hhanded.trans hle, le_refl _, hclock⟩
  · exact ⟨state, (check_mountpoints_of_ne hne).trans hstate, hhanded, hle, hset⟩

/-- **One check** of a patient round. -/
theorem Limited.check (h : Limited m this) (hm : alarms.minIntervalMinutes = m)
    (hpatient : PatientAbout m alarms this c) : Limited m (check alarms fork this c) := by
  have hchecked : Checked alarms this.clock _ (this.stateOf c.mountpoint)
      (alarmsCheckOne alarms c this.clock (this.stateOf c.mountpoint)) := checked_alarmsCheckOne
  refine ⟨h.clock, fun n hn => (h.recorded n hn).check h.clock, h.spaced, ?_, ?_, ?_⟩
  · intro s hs
    rcases List.mem_append.mp hs with hs | hs
    · refine ⟨(h.started s hs).1, ?_⟩
      rcases eq_or_ne s.mountpoint c.mountpoint with heq | hne
      · rw [heq, check_mountpoints_self, Option.isSome_some]
      · rw [check_mountpoints_of_ne hne]
        exact (h.started s hs).2
    · obtain ⟨-, hmountpoint, hhanded⟩ := fire_mem_of_mem_sends hs
      rw [hmountpoint, check_mountpoints_self, hhanded, Option.isSome_some]
      exact ⟨le_refl _, rfl⟩
  · intro s hs n hn hmountpoint htype
    rcases List.mem_append.mp hs with hs | hs
    · exact h.waiting s hs n hn hmountpoint htype
    · obtain ⟨⟨body, hbody, hfire⟩, hc, hhanded⟩ := fire_mem_of_mem_sends hs
      obtain ⟨state, hstate, hle, -, hset⟩ := h.recorded n hn
      have hstateOf : this.stateOf c.mountpoint = state := by
        rw [stateOf, ← hc, ← hmountpoint, hstate, Option.getD_some]
      have hover := (hpatient body.type (mem_firedTypes hfire)).2
      have hrate := hchecked.rateOk body hfire
      rw [IntervalOver, hstateOf] at hover
      rw [hm, hstateOf] at hrate
      rw [htype, ← hbody] at hle hset
      have hinterval := interval_of_alarmRateOk hrate hset hover
      omega
  · refine List.pairwise_append.mpr ⟨h.distinct, hchecked.once.filterMap _ ?_, ?_⟩
    · intro a b hab s hs s' hs' _ htype
      obtain ⟨⟨body, hbody, ha⟩, -⟩ := eq_fire_of_spawnRuckus hs
      obtain ⟨⟨body', hbody', hb⟩, -⟩ := eq_fire_of_spawnRuckus hs'
      exact hab body body' ha hb (hbody.trans (htype.trans hbody'.symm))
    · intro s hs s' hs' hmountpoint
      obtain ⟨⟨body, hbody, hfire⟩, hc, -⟩ := fire_mem_of_mem_sends hs'
      exact hbody ▸ (hpatient body.type (mem_firedTypes hfire)).1 s hs (hmountpoint.trans hc)

/-- A check leaves the other stations to the round. -/
theorem PatientAbout.check {c' : AlarmCandidate} (h : PatientAbout m alarms this c')
    (hne : c'.mountpoint ≠ c.mountpoint) : PatientAbout m alarms (check alarms fork this c) c' := by
  have hstateOf := @stateOf_check_of_ne alarms fork this c _ hne
  intro type htype
  rw [hstateOf] at htype
  refine ⟨fun s hs hmountpoint => ?_, ?_⟩
  · rcases List.mem_append.mp hs with hs | hs
    · exact (h type htype).1 s hs hmountpoint
    · exact absurd (hmountpoint.symm.trans (fire_mem_of_mem_sends hs).2.1) hne
  · rw [IntervalOver, hstateOf]
    exact (h type htype).2

/-! ### The end of a helper -/

/-- A helper that is waited for is the first with its process. -/
theorem eq_append_of_find? {sends : List AlarmSend} {pid : ℕ} {s : AlarmSend}
    (h : sends.find? (·.pid = pid) = some s) :
    ∃ l l', sends = l ++ s :: l' ∧ sends.eraseP (·.pid = pid) = l ++ l' := by
  obtain ⟨hpid, l, l', rfl, hl⟩ := List.find?_eq_some_iff_append.mp h
  have hnone (s' : AlarmSend) (hs' : s' ∈ l) : ¬decide (s'.pid = pid) = true :=
    fun hpid' => absurd hpid' (by simpa using hl s' hs')
  exact ⟨l, l', rfl, (List.eraseP_append_right _ hnone).trans
    (congrArg _ (List.eraseP_cons_of_pos hpid))⟩

/-- A helper that fails is forgotten. -/
theorem Limited.eraseP (h : Limited m this) (pid : ℕ) :
    Limited m { this with sends := this.sends.eraseP (·.pid = pid) } where
  clock := h.clock
  recorded := h.recorded
  spaced := h.spaced
  started s hs := h.started s (List.eraseP_subset hs)
  waiting s hs := h.waiting s (List.eraseP_subset hs)
  distinct := h.distinct.sublist List.eraseP_sublist

/-- The message of a helper is recorded. -/
theorem Limited.sent (h : Limited m this) {s : AlarmSend} {l l' : List AlarmSend}
    (hsends : this.sends = l ++ s :: l') :
    Limited m { this with
      mountpoints := Function.update this.mountpoints s.mountpoint
        ((this.mountpoints s.mountpoint).map (·.setLastSent s.type this.clock))
      sends := l ++ l'
      sent := this.sent ++ [⟨s.mountpoint, s.type, s.handed, this.clock⟩] } := by
  have hmem : s ∈ this.sends := hsends ▸ List.mem_append_right l List.mem_cons_self
  have hsub : ∀ s' ∈ l ++ l', s' ∈ this.sends := fun s' hs' => by
    rw [hsends]
    exact ((List.sublist_cons_self s l').append_left l).subset hs'
  obtain ⟨state, hstate⟩ := Option.isSome_iff_exists.mp (h.started s hmem).2
  refine ⟨h.clock, ?_, ?_, ?_, ?_, ?_⟩
  · intro n hn
    rcases List.mem_append.mp hn with hn | hn
    · obtain ⟨state', hstate', hhanded, hle, hset⟩ := h.recorded n hn
      rcases eq_or_ne n.mountpoint s.mountpoint with heq | hne
      · obtain rfl : state' = state := Option.some.inj (hstate'.symm.trans (heq ▸ hstate))
        refine ⟨_, (congrArg _ heq).trans ((Function.update_self ..).trans
          (congrArg _ hstate)), ?_⟩
        rcases eq_or_ne n.type s.type with htype | htype
        · rw [htype, AlarmMountpointState.lastSent_setLastSent_self]
          exact ⟨hhanded.trans hle, le_refl _, h.clock⟩
        · rw [AlarmMountpointState.lastSent_setLastSent_of_ne htype]
          exact ⟨hhanded, hle, hset⟩
      · exact ⟨state', (Function.update_of_ne hne ..).trans hstate', hhanded, hle, hset⟩
    · obtain rfl := List.mem_singleton.mp hn
      refine ⟨_, (Function.update_self ..).trans (congrArg _ hstate), ?_⟩
      rw [AlarmMountpointState.lastSent_setLastSent_self]
      exact ⟨(h.started s hmem).1, le_refl _, h.clock⟩
  · refine List.pairwise_append.mpr ⟨h.spaced, List.pairwise_singleton _ _, ?_⟩
    rintro n hn b hb ⟨hmountpoint, htype⟩
    obtain rfl := List.mem_singleton.mp hb
    exact h.waiting s hmem n hn hmountpoint htype
  · intro s' hs'
    refine ⟨(h.started s' (hsub s' hs')).1, ?_⟩
    rcases eq_or_ne s'.mountpoint s.mountpoint with heq | hne
    · dsimp only
      rw [heq, Function.update_self, hstate, Option.map_some, Option.isSome_some]
    · dsimp only
      rw [Function.update_of_ne hne]
      exact (h.started s' (hsub s' hs')).2
  · intro s' hs' n hn hmountpoint htype
    rcases List.mem_append.mp hn with hn | hn
    · exact h.waiting s' (hsub s' hs') n hn hmountpoint htype
    · obtain rfl := List.mem_singleton.mp hn
      -- the helpers that are left are for other alarms
      have hdistinct := hsends ▸ h.distinct
      obtain ⟨-, hright, hleft⟩ := List.pairwise_append.mp hdistinct
      rcases List.mem_append.mp hs' with hs' | hs'
      · exact absurd htype.symm (hleft s' hs' s List.mem_cons_self hmountpoint.symm)
      · exact absurd htype ((List.pairwise_cons.mp hright).1 s' hs' hmountpoint)
  · exact (hsends ▸ h.distinct).sublist ((List.sublist_cons_self s l').append_left l)

/-- **The end of a helper.** -/
theorem Limited.reap (h : Limited m this) (pid : ℕ) (exitcode : ℤ) :
    Limited m (this.reap pid exitcode) := by
  unfold Alarms.reap
  split
  · exact h
  · next s hfind =>
    split
    · obtain ⟨l, l', hsends, herase⟩ := eq_append_of_find? hfind
      rw [herase]
      exact h.sent hsends
    · exact h.eraseP pid

/-! ### Runs -/

/-- One step of patient rounds. -/
theorem Limited.step {event : Event} (h : Limited m this) (hok : Patient m this event)
    (hstep : this.step event = some this') : Limited m this' := by
  cases event with
  | wait micros =>
    obtain rfl := Option.some.inj hstep
    refine ⟨?_, ?_, h.spaced, fun s hs => ?_, h.waiting, h.distinct⟩
    · exact fun hzero => h.clock (Nat.le_zero.mp
        (hzero ▸ Nat.div_le_div_right (Nat.le_add_right this.clock micros)))
    · intro n hn
      obtain ⟨state, hstate, hhanded, hle, hset⟩ := h.recorded n hn
      exact ⟨state, hstate, hhanded, hle.trans (Nat.le_add_right _ _), hset⟩
    · exact ⟨(h.started s hs).1.trans (Nat.le_add_right _ _), (h.started s hs).2⟩
  | tick alarms candidates fork =>
    rw [Alarms.step] at hstep
    split at hstep
    · next hnodup =>
      obtain rfl := Option.some.inj hstep
      exact foldl_check (fun _ _ h hc => h.check hok.1 hc) (fun _ _ _ hne hc => hc.check hne)
        hnodup h hok.2
    · contradiction
  | reap pid exitcode =>
    obtain rfl := Option.some.inj hstep
    exact h.reap pid exitcode

/-- **The rate.** When each round that fires an alarm finds no helper for it, messages of one kind
about one station are so many minutes apart. -/
theorem reachable_rateLimited (h : Transition.Reachable Starts (Patient m) step this) :
    RateLimited m this.sent := by
  have hlimited : Limited m this := by
    refine h.invariant ?_ fun _ _ _ hlimited hok hstep => hlimited.step hok hstep
    rintro _ ⟨clock, hclock, rfl⟩
    exact limited_new hclock
  refine hlimited.spaced.imp fun {a b} hspaced hsame => ?_
  have habs := le_abs_self ((b.handed : ℤ) - a.handed)
  have hab := hspaced hsame
  omega

/-- An alarm when a station is not found live for five minutes, for one recipient. -/
def offlineAlarms : ConfigAlarms where
  smtp := none
  recipients := [⟨none, cstr "ops", none⟩]
  mountpoints := []
  subject := none
  minIntervalMinutes := 60
  ruckusPath := none
  emailTemplate := none
  stationOffline := some 5
  stationOnline := none
  lowSvCount := none
  positionDrift := none

/-- A station that is not found live. -/
def darkStation : AlarmCandidate := ⟨cstr "BASE", false, none, none⟩

/-- The second round that fires the alarm comes an hour later, and the first helper has ended. -/
theorem reachable_rateLimited_hour :
    ∃ this : Alarms, this.sent.length = 2 ∧ RateLimited 60 this.sent := by
  have hobserve : (([.tick offlineAlarms [darkStation] fun _ _ => none, .wait 300000000,
      .tick offlineAlarms [darkStation] fun _ _ => some 1, .reap 1 0, .wait 3600000000,
      .tick offlineAlarms [darkStation] fun _ _ => some 2, .reap 2 0] : List Event).foldlM
      (fun (s : Alarms) l => if Patient 60 s l then s.step l else none) (new 1000000)).map
      (fun s => s.sent.length) = some 2 := by
    decide +kernel
  obtain ⟨this, hrun, hlen⟩ := Option.map_eq_some_iff.mp hobserve
  exact ⟨this, hlen, reachable_rateLimited
    (Transition.reachable_of_foldlM (.refl ⟨1000000, by decide, rfl⟩) hrun)⟩

/-- The interval is configured. -/
def Configured (m : ℤ) : Event → Prop
  | .tick alarms _ _ => alarms.minIntervalMinutes = m
  | _ => True

instance (m : ℤ) : DecidablePred (Configured m)
  | .tick alarms _ _ => inferInstanceAs (Decidable (alarms.minIntervalMinutes = m))
  | .wait _ => .isTrue trivial
  | .reap _ _ => .isTrue trivial

/-- Thirty seconds after the first helper was started it has not ended, and the next round starts
another one. Both messages are sent. -/
theorem not_rateLimited_slow_helper :
    ¬ ∀ (m : ℤ) (this : Alarms),
      Transition.Reachable Starts (fun _ event => Configured m event) step this →
        RateLimited m this.sent := by
  intro hall
  have hobserve : (([.tick offlineAlarms [darkStation] fun _ _ => none, .wait 300000000,
      .tick offlineAlarms [darkStation] fun _ _ => some 1, .wait 30000000,
      .tick offlineAlarms [darkStation] fun _ _ => some 2, .reap 1 0, .reap 2 0] :
      List Event).foldlM
      (fun (s : Alarms) l => if Configured 60 l then s.step l else none) (new 1000000)).map
      (fun s => s.sent) = some [⟨cstr "BASE", .stationOffline, 301000000, 331000000⟩,
        ⟨cstr "BASE", .stationOffline, 331000000, 331000000⟩] := by
    decide +kernel
  obtain ⟨this, hrun, hsent⟩ := Option.map_eq_some_iff.mp hobserve
  have hlimited := hall 60 this
    (Transition.reachable_of_foldlM (.refl ⟨1000000, by decide, rfl⟩) hrun)
  rw [hsent] at hlimited
  have hpair := List.pairwise_pair.mp hlimited ⟨rfl, rfl⟩
  exact absurd hpair (by decide)

end Alarms

end ChilopodCaster
