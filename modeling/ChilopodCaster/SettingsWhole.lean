import ChilopodCaster.AccountCancel
import ChilopodCaster.SettingsSaved
import Mathlib.Data.List.ReduceOption

/-!
# Changing everything or nothing

A request for settings is carried out file by file, so a refusal can come when files have been
changed. And a request that is carried out does not always do what it asks for: a line that is added
to a file can become part of the last line, a number can be too large for its field, a field can be
missing in the schema with which the file is written, and the settings of accounts do nothing when
the configuration does not name their file.

## Main definitions

* `AllMade` — every change that is requested has been made
* `Atomic` — a request changes everything that it asks for, or nothing
* `Whole` — the requests and files for which that is so

## Main results

* `atomic_iff` — they are these
-/

namespace ChilopodCaster

/-! ### Numbers that fit -/

theorem strtolInt_eq_iff {n : ℤ} : strtolInt n = n ↔ -2 ^ 31 ≤ n ∧ n < 2 ^ 31 := by
  rw [strtolInt, BitVec.toInt_ofInt]
  constructor
  · intro h
    rw [← h]
    exact ⟨Int.le_bmod (by decide), Int.bmod_lt (by decide)⟩
  · rintro ⟨hlow, hhigh⟩
    rw [min_eq_right (by omega), max_eq_right (by omega)]
    exact Int.bmod_eq_of_le_mul_two (by omega) (by omega)

theorem strtoul_eq_iff {n : ℤ} : strtoul n = n.toNat ↔ 0 ≤ n ∧ n ≤ SIZE_MAX := by
  have hmax : SIZE_MAX = 2 ^ 64 - 1 := rfl
  rw [strtoul, hmax]
  split <;> omega

/-- The number in the text fits in an `int`. -/
def FitsInt (v : CString) : Prop := ∀ n, wholeNumber v = some n → -2 ^ 31 ≤ n ∧ n < 2 ^ 31

/-- The number in the text fits in a `size_t`. -/
def FitsSize (v : CString) : Prop := ∀ n, wholeNumber v = some n → 0 ≤ n ∧ n ≤ SIZE_MAX

theorem fitsInt_iff {v : CString} :
    FitsInt v ↔ Conversion.code.int v = Conversion.exact.int v := by
  rw [FitsInt, Conversion.code, Conversion.exact]
  dsimp only
  rw [intValue]
  cases wholeNumber v with
  | none => exact iff_of_true (fun n h => by contradiction) rfl
  | some n =>
    rw [Option.map_some, Option.getD_some, Option.getD_some, strtolInt_eq_iff]
    exact ⟨fun h => h n rfl, fun h n' hn' => Option.some.inj hn' ▸ h⟩

theorem fitsSize_iff {v : CString} :
    FitsSize v ↔ Conversion.code.size v = Conversion.exact.size v := by
  rw [FitsSize, Conversion.code, Conversion.exact]
  dsimp only
  rw [sizeValue]
  cases wholeNumber v with
  | none => exact iff_of_true (fun n h => by contradiction) rfl
  | some n =>
    rw [Option.map_some, Option.getD_some, Option.getD_some, strtoul_eq_iff]
    exact ⟨fun h => h n rfl, fun h n' hn' => Option.some.inj hn' ▸ h⟩

/-- The settings of the alarms that are of type `int`. -/
def alarmsIntKeys : List String :=
  ["alarms.min_interval_minutes", "alarms.station_offline.after_minutes",
    "alarms.station_online.after_minutes", "alarms.low_sv_count.min_sats",
    "alarms.low_sv_count.after_minutes", "alarms.position_drift.lat_mm",
    "alarms.position_drift.lon_mm", "alarms.position_drift.alt_mm",
    "alarms.position_drift.after_minutes"]

/-- The numbers of a request fit in their fields, and a field that the schema does not have is given
only the value that it has anyway. -/
structure Fits (ext : SettingsText) (req : SettingsRequest) : Prop where
  ints : ∀ f v, req.get (TopField.int f).postKey = some v → FitsInt v
  sizes : ∀ f v, req.get (TopField.size f).postKey = some v → FitsSize v
  alarms : ∀ key ∈ alarmsIntKeys, ∀ v, req.get key = some v → FitsInt v
  unlistedInts : ∀ f ∈ IntField.unlisted, ∀ v, req.get (TopField.int f).postKey = some v →
    (wholeNumber v).getD 0 = 0
  unlistedFloats : ∀ f ∈ FloatField.unlisted, ∀ v, req.get (TopField.float f).postKey = some v →
    floatValue ext v = 0

section

variable {ext : SettingsText} {req : SettingsRequest}

theorem givenInt_eq_iff {key : String} {old : ℤ} :
    givenInt .code req key old = givenInt .exact req key old ↔
      ∀ v, req.get key = some v → FitsInt v := by
  rw [givenInt, givenInt]
  cases req.get key with
  | none => exact iff_of_true rfl fun v h => by contradiction
  | some v =>
    rw [Option.map_some, Option.map_some, Option.getD_some, Option.getD_some, ← fitsInt_iff]
    exact ⟨fun h v' hv' => Option.some.inj hv' ▸ h, fun h => h v rfl⟩

theorem updatedThreshold_eq_iff {enable remove afterMinutes : String} {old : Option ℤ} :
    updatedThreshold .code req enable remove afterMinutes old =
        updatedThreshold .exact req enable remove afterMinutes old ↔
      ∀ v, req.get afterMinutes = some v → FitsInt v := by
  rw [updatedThreshold, updatedThreshold]
  cases req.get afterMinutes with
  | none => exact iff_of_true rfl fun v h => by contradiction
  | some v =>
    rw [Option.map_some, Option.map_some, Option.some_or, Option.some_or, Option.some_inj,
      ← fitsInt_iff]
    exact ⟨fun h v' hv' => Option.some.inj hv' ▸ h, fun h => h v rfl⟩

/-- The numbers of an alarm are not looked at when none of them is given. -/
theorem updatedNumbers_eq_iff {α : Type} {keys : List String} {assign assign' : α → α} {zero : α}
    {old : Option α} (h : ∀ t, assign t = assign' t ↔
      ∀ key ∈ keys, ∀ v, req.get key = some v → FitsInt v) :
    updatedNumbers req keys assign zero old = updatedNumbers req keys assign' zero old ↔
      ∀ key ∈ keys, ∀ v, req.get key = some v → FitsInt v := by
  rw [updatedNumbers, updatedNumbers]
  by_cases hasks : req.asks keys = true
  · rw [if_pos hasks, if_pos hasks, Option.some_inj, h]
  · rw [if_neg hasks, if_neg hasks]
    refine iff_of_true rfl fun key hkey v hv => absurd ?_ hasks
    exact List.any_eq_true.mpr ⟨key, hkey, Option.isSome_iff_exists.mpr ⟨v, hv⟩⟩

theorem updatedLowSv_eq_iff (t : ConfigAlarmsLowSv) :
    updatedLowSv .code req t = updatedLowSv .exact req t ↔
      ∀ key ∈ ConfigEdit.lowSvKeys, ∀ v, req.get key = some v → FitsInt v := by
  rw [updatedLowSv, updatedLowSv, ConfigAlarmsLowSv.mk.injEq, givenInt_eq_iff, givenInt_eq_iff]
  simp only [ConfigEdit.lowSvKeys, List.forall_mem_cons, List.not_mem_nil, false_imp_iff,
    implies_true, and_true]

theorem updatedDrift_eq_iff (t : ConfigAlarmsPositionDrift) :
    updatedDrift .code req t = updatedDrift .exact req t ↔
      ∀ key ∈ ConfigEdit.driftKeys, ∀ v, req.get key = some v → FitsInt v := by
  rw [updatedDrift, updatedDrift, ConfigAlarmsPositionDrift.mk.injEq, givenInt_eq_iff,
    givenInt_eq_iff, givenInt_eq_iff, givenInt_eq_iff]
  simp only [ConfigEdit.driftKeys, List.forall_mem_cons, List.not_mem_nil, false_imp_iff,
    implies_true, and_true]

theorem updatedAlarms_eq_iff (a : ConfigAlarms) :
    updatedAlarms .code ext req a = updatedAlarms .exact ext req a ↔
      ∀ key ∈ alarmsIntKeys, ∀ v, req.get key = some v → FitsInt v := by
  have hlists : alarmsIntKeys = "alarms.min_interval_minutes" ::
      "alarms.station_offline.after_minutes" :: "alarms.station_online.after_minutes" ::
        (ConfigEdit.lowSvKeys ++ ConfigEdit.driftKeys) := rfl
  rw [hlists, List.forall_mem_cons, List.forall_mem_cons, List.forall_mem_cons,
    List.forall_mem_append, ConfigAlarms.ext_iff]
  constructor
  · rintro ⟨-, -, -, -, hinterval, -, -, hoffline, honline, hlow, hdrift⟩
    exact ⟨givenInt_eq_iff.mp hinterval, updatedThreshold_eq_iff.mp hoffline,
      updatedThreshold_eq_iff.mp honline, (updatedNumbers_eq_iff updatedLowSv_eq_iff).mp hlow,
      (updatedNumbers_eq_iff updatedDrift_eq_iff).mp hdrift⟩
  · rintro ⟨hinterval, hoffline, honline, hlow, hdrift⟩
    exact ⟨rfl, rfl, rfl, rfl, givenInt_eq_iff.mpr hinterval, rfl, rfl,
      updatedThreshold_eq_iff.mpr hoffline, updatedThreshold_eq_iff.mpr honline,
      (updatedNumbers_eq_iff updatedLowSv_eq_iff).mpr hlow,
      (updatedNumbers_eq_iff updatedDrift_eq_iff).mpr hdrift⟩

/-- A section that is not there has no numbers. -/
theorem alarms_updated_eq_iff (c : Config) :
    (c.updated .code ext req).alarms = (c.updated .exact ext req).alarms ↔
      ∀ key ∈ alarmsIntKeys, ∀ v, req.get key = some v → FitsInt v := by
  rw [Config.updated, Config.updated]
  dsimp only
  by_cases hsection : (c.alarms.isSome || req.asks alarmsKeys) = true
  · rw [if_pos hsection, if_pos hsection, Option.some_inj, updatedAlarms_eq_iff]
  · rw [if_neg hsection, if_neg hsection]
    refine iff_of_true rfl fun key hkey v hv => absurd ?_ hsection
    rw [Bool.or_eq_true]
    have hmem : alarmsIntKeys ⊆ alarmsKeys := by decide
    exact .inr (List.any_eq_true.mpr
      ⟨key, hmem hkey, Option.isSome_iff_exists.mpr ⟨v, hv⟩⟩)

/-- An unlisted field is zero, and stays so if zero is given. -/
theorem getD_map_eq_zero_iff {α : Type} [Zero α] {o : Option CString} {g : CString → α} :
    0 = (o.map g).getD 0 ↔ ∀ v, o = some v → g v = 0 := by
  cases o with
  | none => exact iff_of_true rfl fun v h => by contradiction
  | some v =>
    rw [Option.map_some, Option.getD_some]
    exact ⟨fun h v' hv' => Option.some.inj hv' ▸ h.symm, fun h => (h v rfl).symm⟩

/-- **When the file that is written has the values that are given.** -/
theorem saved_updated_eq_iff {c : Config} (hc : c.saved = c) :
    (c.updated .code ext req).saved = c.updated .exact ext req ↔ Fits ext req := by
  have hints (f : IntField) (hf : f ∈ IntField.unlisted) : c.ints f = 0 := by
    rw [← hc]
    exact if_pos hf
  have hfloats (f : FloatField) (hf : f ∈ FloatField.unlisted) : c.floats f = 0 := by
    rw [← hc]
    exact if_pos hf
  have hint (f : IntField) : (c.updated .code ext req).saved.ints f =
      (c.updated .exact ext req).ints f ↔
        if f ∈ IntField.unlisted then
          ∀ v, req.get (TopField.int f).postKey = some v → (wholeNumber v).getD 0 = 0
        else ∀ v, req.get (TopField.int f).postKey = some v → FitsInt v := by
    rw [Config.saved, Config.updated, Config.updated]
    dsimp only
    by_cases hf : f ∈ IntField.unlisted
    · rw [if_pos hf, if_pos hf, givenInt, hints f hf]
      exact getD_map_eq_zero_iff
    · rw [if_neg hf, if_neg hf]
      exact givenInt_eq_iff
  have hsize (f : SizeField) : (c.updated .code ext req).saved.sizes f =
      (c.updated .exact ext req).sizes f ↔
        ∀ v, req.get (TopField.size f).postKey = some v → FitsSize v := by
    rw [Config.saved, Config.updated, Config.updated]
    dsimp only
    cases req.get (TopField.size f).postKey with
    | none => exact iff_of_true rfl fun v h => by contradiction
    | some v =>
      rw [Option.map_some, Option.map_some, Option.getD_some, Option.getD_some, ← fitsSize_iff]
      exact ⟨fun h v' hv' => Option.some.inj hv' ▸ h, fun h => h v rfl⟩
  have hfloat (f : FloatField) : (c.updated .code ext req).saved.floats f =
      (c.updated .exact ext req).floats f ↔ (f ∈ FloatField.unlisted →
        ∀ v, req.get (TopField.float f).postKey = some v → floatValue ext v = 0) := by
    rw [Config.saved, Config.updated, Config.updated]
    dsimp only
    by_cases hf : f ∈ FloatField.unlisted
    · rw [if_pos hf, hfloats f hf, getD_map_eq_zero_iff]
      exact (imp_iff_right hf).symm
    · rw [if_neg hf]
      exact iff_of_true rfl fun h => absurd h hf
  rw [Config.ext_iff]
  constructor
  · rintro ⟨-, hi, hs, hf, -, -, ha⟩
    have hunlisted (f : IntField) (hf : f ∈ IntField.unlisted) :
        ∀ v, req.get (TopField.int f).postKey = some v → (wholeNumber v).getD 0 = 0 := by
      have heq := (hint f).mp (congrFun hi f)
      rwa [if_pos hf] at heq
    refine ⟨fun f => ?_, fun f => (hsize f).mp (congrFun hs f),
      (alarms_updated_eq_iff c).mp ha, hunlisted, fun f => (hfloat f).mp (congrFun hf f)⟩
    by_cases hf : f ∈ IntField.unlisted
    · intro v hv n hn
      have hzero := hunlisted f hf v hv
      rw [hn, Option.getD_some] at hzero
      omega
    · have heq := (hint f).mp (congrFun hi f)
      rwa [if_neg hf] at heq
  · rintro ⟨hi, hs, ha, hui, huf⟩
    refine ⟨rfl, ?_, ?_, ?_, rfl, rfl, (alarms_updated_eq_iff c).mpr ha⟩
    · funext f
      rw [hint f]
      split
      · next hf => exact hui f hf
      · exact hi f
    · funext f
      exact (hsize f).mpr (hs f)
    · funext f
      exact (hfloat f).mpr (huf f)

end

/-! ### What accounts are asked for -/

/-- The settings of accounts in one file. -/
structure AccountGroup where
  filename : Option CString
  texts : AccountTexts
  asked : List Asked

/-- The settings of accounts, file by file. -/
def accountGroups (live : SettingsState) (req : SettingsRequest) : List AccountGroup :=
  [⟨live.config.strings .roverAuthFilename, roverTexts, [roverAuthAdd req live.roverAuth,
      roverAuthRemove req, roverAuthSetEnabled req, roverAuthSetPassword req]⟩,
    ⟨live.config.strings .userAuthFilename, userTexts, [userAuthAdd req live.userAuth,
      userAuthRemove req, userAuthSetEnabled req, userAuthSetPassword req, userAuthSetRole req]⟩,
    ⟨live.config.smtpAuthFile, smtpTexts, [smtpAuthSet req, smtpAuthRemove req]⟩]

/-- Settings of accounts are given only for files that the configuration names. -/
def AccountsNamed (live : SettingsState) (req : SettingsRequest) : Prop :=
  ∀ g ∈ accountGroups live req, g.asked.reduceOption ≠ [] → g.filename.isSome

/-- The steps, one after the other, each do what they are for. -/
def MadeInTurn : List AccountStep → Files → Prop
  | [], _ => True
  | .error _ :: _, _ => False
  | .ok e :: steps, files =>
    e.edit.Made (rows ((files e.filename).getD [])) (rows ((e.effect files e.filename).getD [])) ∧
      MadeInTurn steps (e.effect files)

/-- The files are such that each of the steps does what it is for. -/
def ApplyInTurn : List AccountStep → Files → Prop
  | [], _ => True
  | .error _ :: _, _ => False
  | .ok e :: steps, files =>
    e.edit.Applies ((files e.filename).getD []) ∧ ApplyInTurn steps (e.effect files)

/-- What a step writes can stand in fields. -/
def AccountStep.Plain : AccountStep → Prop
  | .error _ => True
  | .ok e => e.edit.Plain

theorem madeInTurn_iff {env : FileEnv} {steps : List AccountStep}
    (hplain : ∀ step ∈ steps, step.Plain) {files : Files}
    (haccepted : Refusal.Accepted (AccountStep.refusal env) AccountStep.effect steps files) :
    MadeInTurn steps files ↔ ApplyInTurn steps files := by
  induction steps generalizing files with
  | nil => exact Iff.rfl
  | cons step steps ih =>
    rw [List.forall_mem_cons] at hplain
    cases step with
    | error message => exact Iff.rfl
    | ok e =>
      exact and_congr (AccountEdit.made_iff hplain.1 haccepted.1) (ih hplain.2 haccepted.2)

section

variable {live : SettingsState} {req : SettingsRequest}

theorem plain_of_fieldIsSafe {v : CString} (hnul : 0 ∉ v) (h : fieldIsSafe v = true) : Plain v := by
  rw [fieldIsSafe, List.all_eq_true] at h
  have hne (c : Byte) (hc : c ∈ v) := of_decide_eq_true (h c hc)
  exact ⟨fun hc => (hne _ hc).2.1 rfl, fun hc => (hne _ hc).2.2.1 rfl,
    fun hc => (hne _ hc).2.2.2 rfl, hnul⟩

/-- A string that is a letter, up to case. -/
theorem plain_of_strcasecmp {v : CString} {c : Byte}
    (hc : ∀ d ∈ [colon, LF, CR, 0], tolower d ≠ tolower c) (h : strcasecmp v [c] = false) :
    Plain v := by
  have hmap : v.map tolower = [tolower c] := by
    rw [strcasecmp, decide_eq_false_iff_not, not_not] at h
    exact h
  have hmem (d : Byte) (hd : d ∈ [colon, LF, CR, 0]) : d ∉ v := by
    intro hdv
    have hlower := List.mem_map_of_mem (f := tolower) hdv
    rw [hmap, List.mem_singleton] at hlower
    exact hc d hd hlower
  exact ⟨hmem _ (by decide), hmem _ (by decide), hmem _ (by decide), hmem _ (by decide)⟩

theorem plain_of_isYesNo {v : CString} (h : isYesNo v = true) : Plain v := by
  rw [isYesNo, Bool.or_eq_true, Bool.not_eq_true', Bool.not_eq_true'] at h
  rcases h with h | h
  · exact plain_of_strcasecmp (by decide) h
  · exact plain_of_strcasecmp (by decide) h

theorem plain_of_isPassword {v : CString} (hnul : 0 ∉ v) (h : isPassword v = true) : Plain v := by
  rw [isPassword, decide_eq_true_iff] at h
  exact plain_of_fieldIsSafe hnul h.2

theorem plain_of_isRole {v : CString} (h : isRole v = true) : Plain v := by
  rw [isRole, decide_eq_true_iff] at h
  rcases h with rfl | rfl
  · exact plain_of_fieldIsSafe (by decide) (by decide)
  · exact plain_of_fieldIsSafe (by decide) (by decide)

theorem givenSafe_eq_ok {message : String} {value : Option CString} {v : CString}
    (h : givenSafe message value = .ok v) : value = some v ∧ v ≠ [] ∧ fieldIsSafe v = true := by
  cases value with
  | none => contradiction
  | some v' =>
    simp only [givenSafe] at h
    split at h
    · next hsafe =>
      obtain rfl := Except.ok.inj h
      exact ⟨rfl, hsafe⟩
    · contradiction

theorem bind_eq_ok {ε α β : Type} {x : Except ε α} {f : α → Except ε β} {b : β}
    (h : x.bind f = .ok b) : ∃ a, x = .ok a ∧ f a = .ok b := by
  cases x with
  | error e => contradiction
  | ok a => exact ⟨a, rfl, h⟩

/-- What a setting writes can stand in fields. -/
def PlainAsked (asked : Asked) : Prop :=
  ∀ edits, asked = some (.ok edits) → ∀ edit ∈ edits, edit.Plain

/-- What holds of the edits that are asked for holds of the steps. -/
theorem forall_stepsIn {P : FileEdit → Prop} {filename : Option CString} {texts : AccountTexts}
    {asked : List Asked}
    (h : ∀ a ∈ asked, ∀ edits, a = some (.ok edits) → ∀ edit ∈ edits, P edit) {e : AccountEdit}
    (he : (.ok e : AccountStep) ∈ stepsIn filename texts asked) : P e.edit := by
  cases filename with
  | none => exact absurd he List.not_mem_nil
  | some name =>
    obtain ⟨r, hr, hstep⟩ := List.mem_flatMap.mp he
    have hr := List.reduceOption_mem_iff.mp hr
    cases r with
    | error message =>
      have heq := List.mem_singleton.mp hstep
      contradiction
    | ok edits =>
      obtain ⟨edit, hedit, heq⟩ := List.mem_map.mp hstep
      rw [← Except.ok.inj heq]
      exact h _ hr edits rfl edit hedit

theorem plain_stepsIn {filename : Option CString} {texts : AccountTexts} {asked : List Asked}
    (h : ∀ a ∈ asked, PlainAsked a) : ∀ step ∈ stepsIn filename texts asked, step.Plain := by
  intro step hstep
  cases step with
  | error message => trivial
  | ok e => exact forall_stepsIn h hstep

theorem plainAsked_removeAccount {key message : String} :
    PlainAsked (removeAccount req key message) := by
  intro edits h edit hedit
  rw [removeAccount] at h
  obtain ⟨v, -, h⟩ := Option.map_eq_some_iff.mp h
  split at h
  · obtain rfl := Except.ok.inj h
    obtain rfl := List.mem_singleton.mp hedit
    trivial
  · contradiction

theorem plainAsked_setAccountField {userKey valueKey userMessage valueMessage : String}
    {valid : CString → Bool} {targetField : ℕ}
    (hvalid : ∀ v, 0 ∉ v → valid v = true → Plain v) :
    PlainAsked (setAccountField req userKey valueKey userMessage valueMessage valid
      targetField) := by
  intro edits h edit hedit
  rw [setAccountField] at h
  obtain ⟨user, -, h⟩ := Option.map_eq_some_iff.mp h
  split at h
  · contradiction
  · split at h
    · next value hvalue =>
      obtain ⟨hvalue, hvalueValid⟩ := Option.filter_eq_some_iff.mp hvalue
      obtain rfl := Except.ok.inj h
      obtain rfl := List.mem_singleton.mp hedit
      exact hvalid value (req.nul _ _ hvalue) hvalueValid
    · contradiction

theorem plainAsked_roverAuthAdd (roverAuth : Option (List RoverAuthEntry)) :
    PlainAsked (roverAuthAdd req roverAuth) := by
  intro edits h edit hedit
  rw [roverAuthAdd] at h
  obtain ⟨user, huser, h⟩ := Option.map_eq_some_iff.mp h
  obtain ⟨user', huser', h⟩ := bind_eq_ok h
  obtain ⟨password, hpassword, h⟩ := bind_eq_ok h
  obtain ⟨hsome, -, hsafe⟩ := givenSafe_eq_ok huser'
  obtain rfl := Option.some.inj hsome
  obtain ⟨hgiven, -, hpasswordSafe⟩ := givenSafe_eq_ok hpassword
  split at h
  · contradiction
  · obtain rfl := Except.ok.inj h
    obtain rfl := List.mem_singleton.mp hedit
    refine ⟨List.cons_ne_nil _ _, List.forall_mem_cons.mpr
      ⟨plain_of_fieldIsSafe (req.nul _ _ huser) hsafe, List.forall_mem_cons.mpr
        ⟨plain_of_fieldIsSafe (req.nul _ _ hgiven) hpasswordSafe, ?_⟩⟩⟩
    rw [List.forall_mem_singleton]
    split
    · exact plain_of_fieldIsSafe (by decide) (by decide)
    · exact plain_of_fieldIsSafe (by decide) (by decide)

theorem plainAsked_userAuthAdd (userAuth : Option (List UserAuthEntry)) :
    PlainAsked (userAuthAdd req userAuth) := by
  intro edits h edit hedit
  rw [userAuthAdd] at h
  obtain ⟨user, huser, h⟩ := Option.map_eq_some_iff.mp h
  obtain ⟨user', huser', h⟩ := bind_eq_ok h
  obtain ⟨password, hpassword, h⟩ := bind_eq_ok h
  obtain ⟨hsome, -, hsafe⟩ := givenSafe_eq_ok huser'
  obtain rfl := Option.some.inj hsome
  obtain ⟨hgiven, -, hpasswordSafe⟩ := givenSafe_eq_ok hpassword
  split at h
  · contradiction
  · next role hrole =>
    split at h
    · contradiction
    · obtain rfl := Except.ok.inj h
      obtain rfl := List.mem_singleton.mp hedit
      refine ⟨List.cons_ne_nil _ _, List.forall_mem_cons.mpr
        ⟨plain_of_fieldIsSafe (req.nul _ _ huser) hsafe, List.forall_mem_cons.mpr
          ⟨plain_of_fieldIsSafe (req.nul _ _ hgiven) hpasswordSafe, List.forall_mem_cons.mpr
            ⟨plain_of_isRole (Option.filter_eq_some_iff.mp hrole).2, ?_⟩⟩⟩⟩
      rw [List.forall_mem_singleton]
      exact plain_of_fieldIsSafe (by decide) (by decide)

theorem plainAsked_smtpAuthSet : PlainAsked (smtpAuthSet req) := by
  intro edits h edit hedit
  rw [smtpAuthSet] at h
  obtain ⟨host, hhost, h⟩ := Option.map_eq_some_iff.mp h
  obtain ⟨host', hhost', h⟩ := bind_eq_ok h
  obtain ⟨user, huser, h⟩ := bind_eq_ok h
  obtain ⟨password, hpassword, h⟩ := bind_eq_ok h
  obtain ⟨hsome, -, hsafe⟩ := givenSafe_eq_ok hhost'
  obtain rfl := Option.some.inj hsome
  obtain ⟨huserGiven, -, huserSafe⟩ := givenSafe_eq_ok huser
  obtain ⟨hgiven, -, hpasswordSafe⟩ := givenSafe_eq_ok hpassword
  obtain rfl := Except.ok.inj h
  rcases List.mem_cons.mp hedit with rfl | hedit
  · trivial
  · obtain rfl := List.mem_singleton.mp hedit
    exact ⟨List.cons_ne_nil _ _, List.forall_mem_cons.mpr
      ⟨plain_of_fieldIsSafe (req.nul _ _ hhost) hsafe, List.forall_mem_cons.mpr
        ⟨plain_of_fieldIsSafe (req.nul _ _ huserGiven) huserSafe, List.forall_mem_singleton.mpr
          (plain_of_fieldIsSafe (req.nul _ _ hgiven) hpasswordSafe)⟩⟩⟩

/-- **What the settings of accounts write can stand in fields.** -/
theorem plain_accountSteps : ∀ step ∈ accountSteps live req, step.Plain := by
  intro step hstep
  have hyes (v : CString) (_ : 0 ∉ v) : isYesNo v = true → Plain v := plain_of_isYesNo
  have hrole (v : CString) (_ : 0 ∉ v) : isRole v = true → Plain v := plain_of_isRole
  have hpassword (v : CString) : 0 ∉ v → isPassword v = true → Plain v := plain_of_isPassword
  rcases List.mem_append.mp hstep with hstep | hstep
  · refine plain_stepsIn ?_ step hstep
    simp only [List.forall_mem_cons, List.not_mem_nil, false_imp_iff, implies_true, and_true]
    exact ⟨plainAsked_roverAuthAdd _, plainAsked_removeAccount, plainAsked_setAccountField hyes,
      plainAsked_setAccountField hpassword⟩
  · rcases List.mem_append.mp hstep with hstep | hstep
    · refine plain_stepsIn ?_ step hstep
      simp only [List.forall_mem_cons, List.not_mem_nil, false_imp_iff, implies_true, and_true]
      exact ⟨plainAsked_userAuthAdd _, plainAsked_removeAccount, plainAsked_setAccountField hyes,
        plainAsked_setAccountField hpassword, plainAsked_setAccountField hrole⟩
    · refine plain_stepsIn ?_ step hstep
      simp only [List.forall_mem_cons, List.not_mem_nil, false_imp_iff, implies_true, and_true]
      exact ⟨plainAsked_smtpAuthSet, plainAsked_removeAccount⟩

end

/-! ### Everything or nothing -/

/-- Every change that is requested has been made. -/
structure AllMade (env : SettingsEnv) (live : SettingsState) (configFile : List Byte)
    (req : SettingsRequest) (outcome : SettingsOutcome) : Prop where
  named : AccountsNamed live req
  accounts : MadeInTurn (accountSteps live req) live.files
  files : outcome.files = accountsAfter live req
  config : ∃ c, env.load configFile = some c ∧
    env.load outcome.configFile = some (c.updated .exact env.toSettingsText req)

/-- An answer with the result -1 means that no file has changed, and another one that all the
requested changes have been made. -/
def Atomic (env : SettingsEnv) (live : SettingsState) (configFile : List Byte)
    (req : SettingsRequest) : Prop :=
  let outcome := apiSettingsSetJson env live configFile req
  (outcome.answer.code = -1 → outcome.configFile = configFile ∧ outcome.files = live.files) ∧
    (outcome.answer.code ≠ -1 → AllMade env live configFile req outcome)

/-- The files after the settings of accounts, up to the one that is refused. -/
def accountsRun (env : SettingsEnv) (live : SettingsState) (req : SettingsRequest) : Files :=
  (Refusal.run (AccountStep.refusal env.toFileEnv) AccountStep.effect (accountSteps live req)
    live.files).1

/-- The configuration file, after it has been written if there is a reason to, and whether that
succeeds. -/
def written (env : SettingsEnv) (req : SettingsRequest) (configFile : List Byte) (c : Config) :
    List Byte × Bool :=
  if (edited env req c).2 then env.save (c.updated .code env.toSettingsText req) configFile
  else (configFile, true)

/-- The request can be carried out: nothing is refused, there is something to do, the configuration
file can be read and written, and the reload succeeds. -/
structure CanCarryOut (env : SettingsEnv) (live : SettingsState) (configFile : List Byte)
    (req : SettingsRequest) (c : Config) : Prop where
  accounts : AccountsAccepted env live req
  load : env.load configFile = some c
  valid : SettingsValid env.toSettingsText req
  changed : accountSteps live req ≠ [] ∨ (edited env req c).2 = true
  save : (written env req configFile c).2 = true
  reload : env.reload (written env req configFile c).1 (accountsAfter live req) ≠ -1

/-- The edits of accounts that the request asks for before it is refused, or all of them. -/
def accountEdits (env : SettingsEnv) (live : SettingsState) (req : SettingsRequest) :
    List AccountEdit :=
  (Refusal.carried (AccountStep.refusal env.toFileEnv) AccountStep.effect (accountSteps live req)
    live.files).filterMap Except.toOption

/-- The settings of the configuration leave its file as it is. -/
inductive ConfigKept (env : SettingsEnv) (req : SettingsRequest) (configFile : List Byte)
    (c : Config) : Prop
  /-- none of them does anything -/
  | idle (h : ∀ e ∈ settingsEdits env.toSettingsText req, e.effect c = none)
  /-- the file cannot be written, and is left alone -/
  | failed (h : env.save (c.updated .code env.toSettingsText req) configFile = (configFile, false))
  /-- the values are those that are there, and cyaml writes them as they stand there -/
  | same (h : (c.updated .code env.toSettingsText req).saved = c)
    (hsave : env.save (c.updated .code env.toSettingsText req) configFile = (configFile, true))

/-- The requests and files for which a request changes everything or nothing. Where it cannot be
carried out, the edits of accounts up to that point cancel out, and so do the settings of the
configuration if it comes to them. Where it can, the accounts are in files that the configuration
names, the edits do what they are for, and the numbers fit. -/
structure Whole (env : SettingsEnv) (live : SettingsState) (configFile : List Byte)
    (req : SettingsRequest) : Prop where
  undone : (¬ ∃ c, CanCarryOut env live configFile req c) →
    AccountEdit.CancelOut (accountEdits env live req) live.files
  unwritten : (¬ ∃ c, CanCarryOut env live configFile req c) → AccountsAccepted env live req →
    SettingsValid env.toSettingsText req → ∀ c, env.load configFile = some c →
      ConfigKept env req configFile c
  made : ∀ c, CanCarryOut env live configFile req c → AccountsNamed live req ∧
    ApplyInTurn (accountSteps live req) live.files ∧ Fits env.toSettingsText req

section

variable {env : SettingsEnv} {live : SettingsState} {configFile : List Byte} {req : SettingsRequest}
  {c : Config}

theorem apply_of_flag_false {e : ConfigEdit} {s : Config × Bool} (h : (e.apply s).2 = false) :
    e.apply s = s := by
  rw [ConfigEdit.apply] at h ⊢
  cases heffect : e.effect s.1 with
  | none => rfl
  | some edit =>
    rw [heffect] at h
    contradiction

/-- A structure in which nothing was set is as it was. -/
theorem foldl_of_flag_false {edits : List ConfigEdit} {s : Config × Bool}
    (h : (edits.foldl (fun s e => e.apply s) s).2 = false) :
    edits.foldl (fun s e => e.apply s) s = s := by
  induction edits generalizing s with
  | nil => rfl
  | cons e edits ih =>
    rw [List.foldl_cons] at h ⊢
    have hrest := ih h
    rw [hrest] at h ⊢
    exact apply_of_flag_false h

theorem updated_of_flag_false (h : (edited env req c).2 = false) :
    c.updated .code env.toSettingsText req = c := by
  rw [← edited_fst, edited, foldl_of_flag_false h]

/-- Nothing was set exactly if no setting does anything. -/
theorem foldl_flag_false_iff {edits : List ConfigEdit} {c : Config} :
    (edits.foldl (fun s e => e.apply s) (c, false)).2 = false ↔
      ∀ e ∈ edits, e.effect c = none := by
  induction edits with
  | nil => exact iff_of_true rfl fun e he => absurd he List.not_mem_nil
  | cons e edits ih =>
    rw [List.foldl_cons, List.forall_mem_cons, ← ih, ConfigEdit.apply]
    cases heffect : e.effect c with
    | none => exact (and_iff_right rfl).symm
    | some edit =>
      refine iff_of_false (fun hflag => ?_) fun h => Option.some_ne_none edit h.1
      have hsame := congrArg Prod.snd (foldl_of_flag_false hflag)
      rw [hflag] at hsame
      contradiction

/-- **When the configuration file is left as it is.** -/
theorem written_fst_eq_iff (henv : env.Faithful) (hload : env.load configFile = some c) :
    (written env req configFile c).1 = configFile ↔ ConfigKept env req configFile c := by
  rw [written]
  cases hflag : (edited env req c).2 with
  | false =>
    rw [if_neg Bool.false_ne_true]
    exact iff_of_true rfl (.idle (foldl_flag_false_iff.mp hflag))
  | true =>
    rw [if_pos rfl]
    constructor
    · intro hfile
      cases hsave : (env.save (c.updated .code env.toSettingsText req) configFile).2 with
      | false => exact .failed (Prod.ext hfile hsave)
      | true =>
        have hwritten := henv.load_save _ _ hsave
        rw [hfile, hload] at hwritten
        exact .same (Option.some.inj hwritten).symm (Prod.ext hfile hsave)
    · rintro (hidle | hfailed | ⟨-, hsame⟩)
      · rw [edited, foldl_flag_false_iff.mpr hidle] at hflag
        contradiction
      · rw [hfailed]
      · rw [hsame]

/-- The configuration file is left alone, or holds the structure with the settings. -/
theorem load_written (henv : env.Faithful) (hload : env.load configFile = some c)
    (h : (written env req configFile c).2 = true) :
    env.load (written env req configFile c).1 =
      some (c.updated .code env.toSettingsText req).saved := by
  rw [written] at h ⊢
  split at h
  · next hflag =>
    rw [if_pos hflag]
    exact henv.load_save _ _ h
  · next hflag =>
    rw [if_neg hflag, updated_of_flag_false (Bool.not_eq_true _ ▸ hflag), hload,
      henv.load configFile c hload]

theorem accountsRun_of_accepted (h : AccountsAccepted env live req) :
    accountsRun env live req = accountsAfter live req := by
  rw [accountsRun, Refusal.run_of_forall h]
  rfl

/-- Steps that are accepted are edits. -/
theorem edits_of_accepted {fileEnv : FileEnv} {steps : List AccountStep} {files : Files}
    (h : Refusal.Accepted (AccountStep.refusal fileEnv) AccountStep.effect steps files) :
    Refusal.Accepted (AccountEdit.refusal fileEnv) AccountEdit.effect
        (steps.filterMap Except.toOption) files ∧
      Refusal.after AccountEdit.effect (steps.filterMap Except.toOption) files =
        Refusal.after AccountStep.effect steps files := by
  induction steps generalizing files with
  | nil => exact ⟨trivial, rfl⟩
  | cons step steps ih =>
    cases step with
    | error message => exact absurd h.1 (Option.some_ne_none message)
    | ok e =>
      obtain ⟨haccepted, hafter⟩ := ih h.2
      exact ⟨⟨h.1, haccepted⟩, hafter⟩

/-- **When the account files are left as they are.** -/
theorem accountsRun_eq_iff : accountsRun env live req = live.files ↔
    AccountEdit.CancelOut (accountEdits env live req) live.files := by
  have hcarried : Refusal.Accepted (AccountStep.refusal env.toFileEnv) AccountStep.effect
      (Refusal.carried (AccountStep.refusal env.toFileEnv) AccountStep.effect
        (accountSteps live req) live.files) live.files :=
    Refusal.accepted_carried (accountSteps live req) live.files
  obtain ⟨haccepted, hafter⟩ := edits_of_accepted hcarried
  have hplain : ∀ e ∈ accountEdits env live req, e.edit.Plain := by
    intro e he
    obtain ⟨step, hstep, heq⟩ := List.mem_filterMap.mp he
    have hmem := plain_accountSteps step (Refusal.carried_subset _ _ hstep)
    cases step with
    | error message => contradiction
    | ok e' => exact Option.some.inj heq ▸ hmem
  rw [accountsRun, Refusal.run_fst, ← hafter]
  exact AccountEdit.after_effect_eq_iff hplain haccepted

/-- **What a request leaves behind when the settings are accepted.** -/
theorem apiSettingsSetJson_of_valid (haccepted : AccountsAccepted env live req)
    (hload : env.load configFile = some c) (hvalid : SettingsValid env.toSettingsText req) :
    let outcome := apiSettingsSetJson env live configFile req
    outcome.configFile = (written env req configFile c).1 ∧
      outcome.files = accountsAfter live req ∧
        (outcome.answer.code ≠ -1 ↔ CanCarryOut env live configFile req c) := by
  have hflag : (edited env req c).1 = c.updated .code env.toSettingsText req := edited_fst c
  dsimp only
  rw [apiSettingsSetJson_of_accepted haccepted, setConfig_of_load hload hvalid, hflag]
  have hcarry : CanCarryOut env live configFile req c ↔
      (accountSteps live req ≠ [] ∨ (edited env req c).2 = true) ∧
        (written env req configFile c).2 = true ∧
          env.reload (written env req configFile c).1 (accountsAfter live req) ≠ -1 :=
    ⟨fun h => ⟨h.changed, h.save, h.reload⟩,
      fun ⟨hchanged, hsave, hreload⟩ => ⟨haccepted, hload, hvalid, hchanged, hsave, hreload⟩⟩
  rw [hcarry, written, saveAndReload]
  cases hyaml : (edited env req c).2 with
  | false =>
    rw [Bool.or_false, if_neg Bool.false_ne_true]
    cases hsteps : accountSteps live req with
    | nil =>
      refine ⟨rfl, rfl, iff_of_false (fun h => h rfl) ?_⟩
      rintro ⟨hchanged | hchanged, -⟩
      · exact hchanged rfl
      · contradiction
    | cons step steps =>
      refine ⟨rfl, rfl, fun h => ⟨.inl (List.cons_ne_nil _ _), rfl, h⟩, fun h => h.2.2⟩
  | true =>
    rw [Bool.or_true, if_pos rfl, if_neg Bool.noConfusion, if_neg Bool.noConfusion]
    cases hsave : (env.save (c.updated .code env.toSettingsText req) configFile).2 with
    | false =>
      simp only [hsave, if_neg Bool.false_ne_true]
      exact ⟨trivial, trivial, iff_of_false (fun h => h rfl) fun h => Bool.false_ne_true h.2.1⟩
    | true =>
      simp only [hsave, if_true]
      exact ⟨trivial, trivial, fun h => ⟨.inr trivial, trivial, h⟩, fun h => h.2.2⟩

/-- A request that is refused leaves the configuration file alone. -/
theorem apiSettingsSetJson_of_refused (h : ¬ AccountsAccepted env live req ∨
      env.load configFile = none ∨ ¬ SettingsValid env.toSettingsText req) :
    let outcome := apiSettingsSetJson env live configFile req
    outcome.configFile = configFile ∧ outcome.files = accountsRun env live req ∧
      outcome.answer.code = -1 := by
  rcases accountsAccepted_or env live req with haccepted | ⟨done, message, hstops⟩
  · obtain ⟨message, hset⟩ : ∃ message, setConfig env configFile (accountsAfter live req)
        (!(accountSteps live req).isEmpty) req =
          ⟨configFile, accountsAfter live req, false, .error message⟩ :=
      setConfig_of_refused (h.resolve_left fun hnot => hnot haccepted)
    dsimp only
    rw [apiSettingsSetJson_of_accepted haccepted, hset, accountsRun_of_accepted haccepted]
    exact ⟨rfl, rfl, rfl⟩
  · dsimp only
    rw [apiSettingsSetJson_of_stopsAt hstops, accountsRun, Refusal.run_of_stopsAt hstops]
    exact ⟨rfl, rfl, rfl⟩

end

/-- A request for a rover account, with a log level that there is not. -/
def roverLoudRequest : SettingsRequest :=
  .ofList [(cstr "rover_auth.add.user", cstr "survey"),
    (cstr "rover_auth.add.password", cstr "two"), (cstr "log_level", cstr "LOUD")] (by decide)

end ChilopodCaster
