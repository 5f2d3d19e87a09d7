import ChilopodCaster.SettingsFields

/-!
# What the settings make of the configuration

The settings of a request are carried out one after the other, on a structure. What comes out can be
said field by field: a field that is given has the value that is given, and another keeps its own.
The section of alarms, and the mail server in it, are there if they were there before or if one of
their settings is given.

A number is given as a text of any length, and stored in an `int` or a `size_t`. So the value that
is stored is a parameter here: with one conversion this is what the source does, with another it is
what the request says.

## Main definitions

* `Conversion` — how a number in a text is stored
* `Config.updated` — the configuration with the settings of a request

## Main results

* `foldl_settingsEdits` — the settings, carried out one after the other
-/

namespace ChilopodCaster

/-- How a number in a text is stored in an `int` and in a `size_t`. -/
structure Conversion where
  int : CString → ℤ
  size : CString → ℕ

/-- As in the source, with the truncations of C. -/
def Conversion.code : Conversion := ⟨intValue, sizeValue⟩

/-- As the number is. -/
def Conversion.exact : Conversion :=
  ⟨fun v => (wholeNumber v).getD 0, fun v => ((wholeNumber v).getD 0).toNat⟩

/-- The settings that make the section of alarms. -/
def alarmsKeys : List String :=
  ["alarms.subject", "alarms.min_interval_minutes", "alarms.ruckus_path", "alarms.email_template",
    "alarms.smtp.host", "alarms.smtp.port", "alarms.smtp.auth_file", "alarms.smtp.tls",
    "alarms.station_offline.enable", "alarms.station_offline.after_minutes",
    "alarms.station_online.enable", "alarms.station_online.after_minutes",
    "alarms.low_sv_count.enable", "alarms.low_sv_count.min_sats",
    "alarms.low_sv_count.after_minutes", "alarms.position_drift.enable",
    "alarms.position_drift.lat_mm", "alarms.position_drift.lon_mm", "alarms.position_drift.alt_mm",
    "alarms.position_drift.after_minutes", "alarms.recipients.set", "alarms.mountpoints.set"]

/-- The settings that make the mail server. -/
def smtpKeys : List String :=
  ["alarms.smtp.host", "alarms.smtp.port", "alarms.smtp.auth_file", "alarms.smtp.tls"]

/-- One of these settings is given. -/
def SettingsRequest.asks (req : SettingsRequest) (keys : List String) : Bool :=
  keys.any fun key => (req.get key).isSome

section

variable (cv : Conversion) (ext : SettingsText) (req : SettingsRequest)

/-- A number that is given, or the one that is there. -/
def givenInt (key : String) (old : ℤ) : ℤ := ((req.get key).map cv.int).getD old

/-- An alarm after it has been turned on or off, or left as it is. -/
def switched {α : Type} (enable remove : String) (zero : α) (old : Option α) : Option α :=
  if (req.get remove).isSome then none
  else if (req.get enable).isSome then some (old.getD zero)
  else old

/-- A threshold: a number that is given turns it on. -/
def updatedThreshold (enable remove afterMinutes : String) (old : Option ℤ) : Option ℤ :=
  ((req.get afterMinutes).map cv.int).or (switched req enable remove 0 old)

def updatedLowSv (t : ConfigAlarmsLowSv) : ConfigAlarmsLowSv where
  minSats := givenInt cv req "alarms.low_sv_count.min_sats" t.minSats
  afterMinutes := givenInt cv req "alarms.low_sv_count.after_minutes" t.afterMinutes

def updatedDrift (t : ConfigAlarmsPositionDrift) : ConfigAlarmsPositionDrift where
  latMm := givenInt cv req "alarms.position_drift.lat_mm" t.latMm
  lonMm := givenInt cv req "alarms.position_drift.lon_mm" t.lonMm
  altMm := givenInt cv req "alarms.position_drift.alt_mm" t.altMm
  afterMinutes := givenInt cv req "alarms.position_drift.after_minutes" t.afterMinutes

/-- The numbers of an alarm, of which each one that is given turns it on. -/
def updatedNumbers {α : Type} (keys : List String) (assign : α → α) (zero : α)
    (old : Option α) : Option α :=
  if req.asks keys then some (assign (old.getD zero)) else old

def updatedSmtp (s : ConfigAlarmsSmtp) : ConfigAlarmsSmtp where
  host := (req.get "alarms.smtp.host").or s.host
  port := ((req.get "alarms.smtp.port").map fun v =>
    BitVec.ofInt 16 ((wholeNumber v).getD 0)).getD s.port
  tls := ((req.get "alarms.smtp.tls").map ConfigEdit.tlsValue).getD s.tls
  authFile := (req.get "alarms.smtp.auth_file").or s.authFile

/-- The section of alarms with the settings of a request. -/
def updatedAlarms (a : ConfigAlarms) : ConfigAlarms where
  smtp := if a.smtp.isSome || req.asks smtpKeys then some (updatedSmtp req a.ensureSmtp) else none
  recipients := ((req.get "alarms.recipients.set").map fun v =>
    listed (recipientsValue ext v)).getD a.recipients
  mountpoints := ((req.get "alarms.mountpoints.set").map fun v =>
    listed (mountpointsValue ext v)).getD a.mountpoints
  subject := (req.get "alarms.subject").or a.subject
  minIntervalMinutes := givenInt cv req "alarms.min_interval_minutes" a.minIntervalMinutes
  ruckusPath := (req.get "alarms.ruckus_path").or a.ruckusPath
  emailTemplate := (req.get "alarms.email_template").or a.emailTemplate
  stationOffline := updatedThreshold cv req "alarms.station_offline.enable"
    "alarms.station_offline.remove" "alarms.station_offline.after_minutes" a.stationOffline
  stationOnline := updatedThreshold cv req "alarms.station_online.enable"
    "alarms.station_online.remove" "alarms.station_online.after_minutes" a.stationOnline
  lowSvCount := updatedNumbers req ConfigEdit.lowSvKeys (updatedLowSv cv req) ⟨0, 0⟩
    (switched req "alarms.low_sv_count.enable" "alarms.low_sv_count.remove" ⟨0, 0⟩ a.lowSvCount)
  positionDrift := updatedNumbers req ConfigEdit.driftKeys (updatedDrift cv req) ⟨0, 0, 0, 0⟩
    (switched req "alarms.position_drift.enable" "alarms.position_drift.remove" ⟨0, 0, 0, 0⟩
      a.positionDrift)

/-- The configuration with the settings of a request. -/
def Config.updated (c : Config) : Config where
  strings := fun f => (req.get (TopField.string f).postKey).or (c.strings f)
  ints := fun f => givenInt cv req (TopField.int f).postKey (c.ints f)
  sizes := fun f => ((req.get (TopField.size f).postKey).map cv.size).getD (c.sizes f)
  floats := fun f => ((req.get (TopField.float f).postKey).map (floatValue ext)).getD (c.floats f)
  logLevel := ((req.get "log_level").map fun v => (logLevelFromName v).getD 0).getD c.logLevel
  trustedHttpProxy := c.trustedHttpProxy
  alarms := if c.alarms.isSome || req.asks alarmsKeys then
      some (updatedAlarms cv ext req c.ensureAlarms)
    else none

end

/-! ### The fields at the top -/

section

variable {ext : SettingsText} {req : SettingsRequest}

/-- The fields at the top, with the texts that are given. -/
def Config.withTop (ext : SettingsText) (given : TopField → Option CString) (c : Config) : Config :=
  { c with
    strings := fun f => (given (.string f)).or (c.strings f)
    ints := fun f => ((given (.int f)).map intValue).getD (c.ints f)
    sizes := fun f => ((given (.size f)).map sizeValue).getD (c.sizes f)
    floats := fun f => ((given (.float f)).map (floatValue ext)).getD (c.floats f) }

theorem getD_map_or {α β : Type} (g : α → β) (o o' : Option α) (x : β) :
    (o.map g).getD ((o'.map g).getD x) = ((o.or o').map g).getD x := by
  cases o <;> rfl

/-- What is given later counts. -/
theorem withTop_withTop (given given' : TopField → Option CString) (c : Config) :
    (c.withTop ext given).withTop ext given' =
      c.withTop ext fun field => (given' field).or (given field) := by
  refine Config.ext ?_ ?_ ?_ ?_ rfl rfl rfl
  · funext f
    exact Option.or_assoc.symm
  · funext f
    exact getD_map_or intValue _ _ _
  · funext f
    exact getD_map_or sizeValue _ _ _
  · funext f
    exact getD_map_or (floatValue ext) _ _ _

/-- The texts that a request gives for the fields in a list. -/
def SettingsRequest.top (req : SettingsRequest) (fields : List TopField) (field : TopField) :
    Option CString :=
  if field ∈ fields then req.get field.postKey else none

theorem top_cons_or (field : TopField) (fields : List TopField) :
    (fun field' => (req.top fields field').or (req.top [field] field')) =
      req.top (field :: fields) := by
  funext field'
  rw [SettingsRequest.top, SettingsRequest.top, SettingsRequest.top]
  by_cases hfields : field' ∈ fields
  · rw [if_pos hfields, if_pos (List.mem_cons_of_mem _ hfields)]
    by_cases hfield : field' ∈ [field]
    · rw [if_pos hfield, Option.or_self]
    · rw [if_neg hfield, Option.or_none]
  · rw [if_neg hfields, Option.none_or]
    by_cases hfield : field' ∈ [field]
    · obtain rfl := List.mem_singleton.mp hfield
      rw [if_pos hfield, if_pos (List.mem_cons_self ..)]
    · rw [if_neg hfield, if_neg]
      rw [List.mem_cons, not_or]
      exact ⟨fun h => hfield (h ▸ List.mem_singleton_self _), hfields⟩

theorem withTop_nil (c : Config) : c.withTop ext (req.top []) = c := rfl

/-- A field that is set has the text that is given, and another keeps its own. -/
theorem update_eq_getD {α β : Type} [DecidableEq α] {mk : α → TopField}
    (hmk : Function.Injective mk) (g : CString → β) (old : α → β) (a : α) (v : CString) (f : α) :
    Function.update old a (g v) f =
      ((if mk f = mk a then some v else none).map g).getD (old f) := by
  rw [Function.update_apply]
  by_cases h : f = a
  · rw [if_pos h, if_pos (congrArg mk h)]
    rfl
  · rw [if_neg h, if_neg fun heq => h (hmk heq)]
    rfl

theorem or_eq_getD {α : Type} (o x : Option α) : o.or x = (o.map some).getD x := by
  cases o <;> rfl

/-- One field. -/
theorem assign_eq_withTop {field : TopField} {v : CString} (hv : req.get field.postKey = some v)
    (c : Config) : field.assign ext v c = c.withTop ext (req.top [field]) := by
  have hgiven : req.top [field] = fun field' => if field' = field then some v else none := by
    funext field'
    rw [SettingsRequest.top]
    by_cases h : field' = field
    · rw [if_pos h, if_pos (List.mem_singleton.mpr h), h, hv]
    · rw [if_neg h, if_neg (mt List.mem_singleton.mp h)]
  rw [hgiven]
  cases field with
  | string g =>
    refine Config.ext ?_ rfl rfl rfl rfl rfl rfl
    funext f
    exact (update_eq_getD (fun _ _ => TopField.string.inj) some _ g v f).trans (or_eq_getD _ _).symm
  | int g =>
    refine Config.ext rfl ?_ rfl rfl rfl rfl rfl
    funext f
    exact update_eq_getD (fun _ _ => TopField.int.inj) intValue _ g v f
  | size g =>
    refine Config.ext rfl rfl ?_ rfl rfl rfl rfl
    funext f
    exact update_eq_getD (fun _ _ => TopField.size.inj) sizeValue _ g v f
  | float g =>
    refine Config.ext rfl rfl rfl ?_ rfl rfl rfl
    funext f
    exact update_eq_getD (fun _ _ => TopField.float.inj) (floatValue ext) _ g v f

theorem top_apply (field : TopField) (s : Config × Bool) :
    ((ConfigEdit.top ext req field).apply s).1 = s.1.withTop ext (req.top [field]) := by
  cases hv : req.get field.postKey with
  | none =>
    have hgiven : req.top [field] = req.top [] := by
      funext field'
      rw [SettingsRequest.top, SettingsRequest.top, if_neg List.not_mem_nil]
      by_cases h : field' ∈ [field]
      · rw [if_pos h, List.mem_singleton.mp h, hv]
      · rw [if_neg h]
    rw [hgiven, withTop_nil, ConfigEdit.apply, ConfigEdit.top, hv]
    rfl
  | some v =>
    rw [← assign_eq_withTop hv, ConfigEdit.apply, ConfigEdit.top, hv]
    rfl

/-- The fields, one after the other. -/
theorem foldl_top (fields : List TopField) (s : Config × Bool) :
    ((fields.map (ConfigEdit.top ext req)).foldl (fun s e => e.apply s) s).1 =
      s.1.withTop ext (req.top fields) := by
  induction fields generalizing s with
  | nil => rfl
  | cons field fields ih =>
    rw [List.map_cons, List.foldl_cons, ih, top_apply, withTop_withTop, top_cons_or]

theorem mem_topFields (field : TopField) : field ∈ topFields := by
  rcases field with f | f | f | f <;> cases f <;> decide

/-! ### The alarms -/

/-- The section of alarms is edited. It is made first when it is asked for. -/
def withSection (asked : Bool) (g : ConfigAlarms → ConfigAlarms) (alarms : Option ConfigAlarms) :
    Option ConfigAlarms :=
  if alarms.isSome || asked then some (g (alarms.getD .zero)) else none

def Config.withAlarms (asked : Bool) (g : ConfigAlarms → ConfigAlarms) (c : Config) : Config :=
  { c with alarms := withSection asked g c.alarms }

theorem withSection_withSection {asked : Bool} {g : ConfigAlarms → ConfigAlarms}
    (hzero : asked = false → g .zero = .zero) (asked' : Bool) (g' : ConfigAlarms → ConfigAlarms)
    (alarms : Option ConfigAlarms) : withSection asked' g' (withSection asked g alarms) =
      withSection (asked || asked') (g' ∘ g) alarms := by
  cases alarms with
  | some a => rfl
  | none =>
    cases asked with
    | true => rfl
    | false =>
      cases asked' with
      | true => exact congrArg (fun a => some (g' a)) (hzero rfl).symm
      | false => rfl

/-- A setting of the alarms makes the section if it is asked for, and edits it. -/
structure AlarmsStep (e : ConfigEdit) (step : Bool × (ConfigAlarms → ConfigAlarms)) : Prop where
  apply : ∀ s, (e.apply s).1 = s.1.withAlarms step.1 step.2
  zero : step.1 = false → step.2 .zero = .zero

/-- A section that is not asked for, and not changed. -/
theorem withAlarms_id {g : ConfigAlarms → ConfigAlarms} (hg : ∀ a, g a = a) (c : Config) :
    c.withAlarms false g = c := by
  refine Config.ext rfl rfl rfl rfl rfl rfl ?_
  rw [Config.withAlarms]
  cases c.alarms with
  | some a => exact congrArg some (hg a)
  | none => rfl

/-- A setting whose text is given edits the section. -/
theorem alarmsStep_alarms {key : String} {refusal : CString → Option CString}
    {assign : CString → ConfigAlarms → ConfigAlarms} {g : ConfigAlarms → ConfigAlarms}
    (hg : ∀ a, g a = ((req.get key).map fun v => assign v a).getD a) :
    AlarmsStep (ConfigEdit.alarms req key refusal assign) ((req.get key).isSome, g) := by
  cases hv : req.get key with
  | none =>
    have hid (a : ConfigAlarms) : g a = a := by
      rw [hg, hv]
      rfl
    refine ⟨fun s => ?_, fun _ => hid _⟩
    rw [ConfigEdit.apply, ConfigEdit.alarms, hv]
    exact (withAlarms_id hid s.1).symm
  | some v =>
    refine ⟨fun s => ?_, fun h => Bool.noConfusion h⟩
    rw [ConfigEdit.apply, ConfigEdit.alarms, hv]
    refine Config.ext rfl rfl rfl rfl rfl rfl ?_
    have hassign : g s.1.ensureAlarms = assign v s.1.ensureAlarms := by
      rw [hg, hv]
      rfl
    rw [Config.withAlarms, withSection, Option.isSome_some, Bool.or_true, if_pos rfl]
    exact congrArg some hassign.symm

/-- An alarm is removed from the section, if it is there. -/
theorem alarmsStep_remove {key : String} {present : ConfigAlarms → Bool}
    {clear g : ConfigAlarms → ConfigAlarms}
    (hg : ∀ a, g a = if (req.get key).isSome then clear a else a)
    (hclear : ∀ a, present a = false → clear a = a) (hzero : present .zero = false) :
    AlarmsStep (ConfigEdit.remove req key present clear) (false, g) := by
  have hgzero : g .zero = .zero := by
    rw [hg, hclear _ hzero, ite_self]
  refine ⟨fun s => ?_, fun _ => hgzero⟩
  by_cases hv : (req.get key).isSome
  · have hgclear (a : ConfigAlarms) : g a = clear a := by rw [hg, if_pos hv]
    have hif : (ConfigEdit.remove req key present clear).effect s.1 =
        (s.1.alarms.filter present).map fun a => { s.1 with alarms := some (clear a) } := if_pos hv
    rw [ConfigEdit.apply, hif]
    cases halarms : s.1.alarms with
    | none =>
      refine Config.ext rfl rfl rfl rfl rfl rfl ?_
      rw [Config.withAlarms, halarms]
      exact halarms
    | some a =>
      by_cases hpresent : present a = true
      · rw [Option.filter_some_pos hpresent]
        refine Config.ext rfl rfl rfl rfl rfl rfl ?_
        rw [Config.withAlarms, halarms]
        exact congrArg some (hgclear a).symm
      · rw [Bool.not_eq_true] at hpresent
        rw [Option.filter_some_neg hpresent]
        refine Config.ext rfl rfl rfl rfl rfl rfl ?_
        rw [Config.withAlarms, halarms]
        have hkeep : g a = a := by rw [hgclear, hclear a hpresent]
        exact halarms.trans (congrArg some hkeep.symm)
  · have hid (a : ConfigAlarms) : g a = a := by rw [hg, if_neg hv]
    have hif : (ConfigEdit.remove req key present clear).effect s.1 = none := if_neg hv
    rw [ConfigEdit.apply, hif]
    exact (withAlarms_id hid s.1).symm

/-- The numbers of an alarm are set together. -/
theorem alarmsStep_numbers {keys : List String} {assign g : ConfigAlarms → ConfigAlarms}
    (hg : ∀ a, g a = if req.asks keys then assign a else a) :
    AlarmsStep (ConfigEdit.numbers ext req keys assign) (req.asks keys, g) := by
  by_cases hv : req.asks keys = true
  · refine ⟨fun s => ?_, fun h => absurd (hv.symm.trans h) (by decide)⟩
    have hif : (ConfigEdit.numbers ext req keys assign).effect s.1 =
        some { s.1 with alarms := some (assign s.1.ensureAlarms) } := if_pos hv
    rw [ConfigEdit.apply, hif]
    refine Config.ext rfl rfl rfl rfl rfl rfl ?_
    have hassign : g s.1.ensureAlarms = assign s.1.ensureAlarms := by rw [hg, if_pos hv]
    rw [Config.withAlarms, withSection, hv, Bool.or_true, if_pos rfl]
    exact congrArg some hassign.symm
  · have hid (a : ConfigAlarms) : g a = a := by rw [hg, if_neg hv]
    refine ⟨fun s => ?_, fun _ => hid _⟩
    have hif : (ConfigEdit.numbers ext req keys assign).effect s.1 = none := if_neg hv
    rw [Bool.not_eq_true] at hv
    rw [ConfigEdit.apply, hif, hv]
    exact (withAlarms_id hid s.1).symm

/-- The settings of the alarms, one after the other. -/
theorem foldl_alarms {edits : List ConfigEdit}
    {steps : List (Bool × (ConfigAlarms → ConfigAlarms))} (h : List.Forall₂ AlarmsStep edits steps)
    {asked : Bool} {g : ConfigAlarms → ConfigAlarms} (hzero : asked = false → g .zero = .zero)
    {s : Config × Bool} {c : Config} (hs : s.1 = c.withAlarms asked g) :
    (edits.foldl (fun s e => e.apply s) s).1 =
      c.withAlarms (steps.foldl (fun b step => b || step.1) asked)
        (steps.foldl (fun f step => step.2 ∘ f) g) := by
  induction h generalizing s asked g with
  | nil => exact hs
  | @cons e step edits steps hstep _ ih =>
    rw [List.foldl_cons, List.foldl_cons, List.foldl_cons]
    refine ih (fun hfalse => ?_) ?_
    · rw [Bool.or_eq_false_iff] at hfalse
      rw [Function.comp_apply, hzero hfalse.1, hstep.zero hfalse.2]
    · rw [hstep.apply, hs]
      exact congrArg (fun alarms => { c with alarms := alarms })
        (withSection_withSection hzero _ _ _)

/-- Whether a setting is given. -/
def SettingsRequest.has (req : SettingsRequest) (key : String) : Bool := (req.get key).isSome

/-- A setting of the mail server, on the section. -/
def smtpStep (req : SettingsRequest) (key : String)
    (assign : CString → ConfigAlarmsSmtp → ConfigAlarmsSmtp) (a : ConfigAlarms) : ConfigAlarms :=
  { a with smtp := ((req.get key).map fun v => assign v a.ensureSmtp).or a.smtp }

/-- What each setting of the section asks for, and how it edits the section. -/
def sectionSteps (req : SettingsRequest) : List (Bool × (ConfigAlarms → ConfigAlarms)) :=
  [(req.has "alarms.subject", fun a =>
      { a with subject := (req.get "alarms.subject").or a.subject }),
    (req.has "alarms.min_interval_minutes", fun a => { a with
      minIntervalMinutes :=
        givenInt .code req "alarms.min_interval_minutes" a.minIntervalMinutes }),
    (req.has "alarms.ruckus_path", fun a => { a with
      ruckusPath := (req.get "alarms.ruckus_path").or a.ruckusPath }),
    (req.has "alarms.email_template", fun a => { a with
      emailTemplate := (req.get "alarms.email_template").or a.emailTemplate }),
    (req.has "alarms.smtp.host", smtpStep req "alarms.smtp.host" fun v s =>
      { s with host := some v }),
    (req.has "alarms.smtp.port", smtpStep req "alarms.smtp.port" fun v s => { s with
      port := BitVec.ofInt 16 ((wholeNumber v).getD 0) }),
    (req.has "alarms.smtp.auth_file", smtpStep req "alarms.smtp.auth_file" fun v s => { s with
      authFile := some v }),
    (req.has "alarms.smtp.tls", smtpStep req "alarms.smtp.tls" fun v s => { s with
      tls := ConfigEdit.tlsValue v })]

/-- The same for the settings that turn alarms on and off. -/
def thresholdSteps (req : SettingsRequest) : List (Bool × (ConfigAlarms → ConfigAlarms)) :=
  [(req.has "alarms.station_offline.enable", fun a => { a with
      stationOffline := if req.has "alarms.station_offline.enable" then
        some (a.stationOffline.getD 0) else a.stationOffline }),
    (false, fun a => { a with
      stationOffline := if req.has "alarms.station_offline.remove" then none
        else a.stationOffline }),
    (req.has "alarms.station_offline.after_minutes", fun a => { a with
      stationOffline := ((req.get "alarms.station_offline.after_minutes").map intValue).or
        a.stationOffline }),
    (req.has "alarms.station_online.enable", fun a => { a with
      stationOnline := if req.has "alarms.station_online.enable" then
        some (a.stationOnline.getD 0) else a.stationOnline }),
    (false, fun a => { a with
      stationOnline := if req.has "alarms.station_online.remove" then none else a.stationOnline }),
    (req.has "alarms.station_online.after_minutes", fun a => { a with
      stationOnline := ((req.get "alarms.station_online.after_minutes").map intValue).or
        a.stationOnline }),
    (req.has "alarms.low_sv_count.enable", fun a => { a with
      lowSvCount := if req.has "alarms.low_sv_count.enable" then
        some (a.lowSvCount.getD ⟨0, 0⟩) else a.lowSvCount }),
    (false, fun a => { a with
      lowSvCount := if req.has "alarms.low_sv_count.remove" then none else a.lowSvCount }),
    (req.asks ConfigEdit.lowSvKeys, fun a => { a with
      lowSvCount := updatedNumbers req ConfigEdit.lowSvKeys (updatedLowSv .code req) ⟨0, 0⟩
        a.lowSvCount }),
    (req.has "alarms.position_drift.enable", fun a => { a with
      positionDrift := if req.has "alarms.position_drift.enable" then
        some (a.positionDrift.getD ⟨0, 0, 0, 0⟩) else a.positionDrift }),
    (false, fun a => { a with
      positionDrift := if req.has "alarms.position_drift.remove" then none else a.positionDrift }),
    (req.asks ConfigEdit.driftKeys, fun a => { a with
      positionDrift := updatedNumbers req ConfigEdit.driftKeys (updatedDrift .code req)
        ⟨0, 0, 0, 0⟩ a.positionDrift })]

/-- The same for the settings that replace a list. -/
def listSteps (ext : SettingsText) (req : SettingsRequest) :
    List (Bool × (ConfigAlarms → ConfigAlarms)) :=
  [(req.has "alarms.recipients.set", fun a => { a with
      recipients := ((req.get "alarms.recipients.set").map fun v =>
        listed (recipientsValue ext v)).getD a.recipients }),
    (req.has "alarms.mountpoints.set", fun a => { a with
      mountpoints := ((req.get "alarms.mountpoints.set").map fun v =>
        listed (mountpointsValue ext v)).getD a.mountpoints })]

/-- The mail server is made, or kept. -/
theorem alarmsStep_smtp {key : String} {refusal : CString → Option CString}
    {assign : CString → ConfigAlarmsSmtp → ConfigAlarmsSmtp} :
    AlarmsStep (ConfigEdit.smtp req key refusal assign) (req.has key, smtpStep req key assign) := by
  refine alarmsStep_alarms fun a => ?_
  rw [smtpStep]
  cases req.get key <;> rfl

/-- A setting whose value does not matter. -/
theorem alarmsStep_enable {key : String} {assign g : ConfigAlarms → ConfigAlarms}
    (hg : ∀ a, g a = if req.has key then assign a else a) :
    AlarmsStep (ConfigEdit.alarms req key ConfigEdit.accept fun _ a => assign a)
      (req.has key, g) := by
  refine alarmsStep_alarms fun a => ?_
  rw [hg, SettingsRequest.has]
  cases req.get key <;> rfl

theorem forall₂_sectionEdits :
    List.Forall₂ AlarmsStep (ConfigEdit.sectionEdits ext req) (sectionSteps req) := by
  refine .cons (alarmsStep_alarms fun a => ?_) (.cons (alarmsStep_alarms fun a => ?_)
    (.cons (alarmsStep_alarms fun a => ?_) (.cons (alarmsStep_alarms fun a => ?_)
    (.cons alarmsStep_smtp (.cons alarmsStep_smtp (.cons alarmsStep_smtp
    (.cons alarmsStep_smtp .nil)))))))
  · cases req.get "alarms.subject" <;> rfl
  · rw [givenInt]
    cases req.get "alarms.min_interval_minutes" <;> rfl
  · cases req.get "alarms.ruckus_path" <;> rfl
  · cases req.get "alarms.email_template" <;> rfl

theorem forall₂_thresholdEdits :
    List.Forall₂ AlarmsStep (ConfigEdit.thresholdEdits ext req) (thresholdSteps req) := by
  refine .cons (alarmsStep_enable fun a => ?_) (.cons (alarmsStep_remove (fun a => ?_) ?_ rfl)
    (.cons (alarmsStep_alarms fun a => ?_) (.cons (alarmsStep_enable fun a => ?_)
    (.cons (alarmsStep_remove (fun a => ?_) ?_ rfl) (.cons (alarmsStep_alarms fun a => ?_)
    (.cons (alarmsStep_enable fun a => ?_) (.cons (alarmsStep_remove (fun a => ?_) ?_ rfl)
    (.cons (alarmsStep_numbers fun a => ?_) (.cons (alarmsStep_enable fun a => ?_)
    (.cons (alarmsStep_remove (fun a => ?_) ?_ rfl) (.cons (alarmsStep_numbers fun a => ?_)
    .nil)))))))))))
  · cases req.has "alarms.station_offline.enable" <;> rfl
  · rw [SettingsRequest.has]
    cases req.get "alarms.station_offline.remove" <;> rfl
  · intro a h
    rw [← Option.isNone_iff_eq_none.mp (Option.isSome_eq_false_iff.mp h)]
  · cases req.get "alarms.station_offline.after_minutes" <;> rfl
  · cases req.has "alarms.station_online.enable" <;> rfl
  · rw [SettingsRequest.has]
    cases req.get "alarms.station_online.remove" <;> rfl
  · intro a h
    rw [← Option.isNone_iff_eq_none.mp (Option.isSome_eq_false_iff.mp h)]
  · cases req.get "alarms.station_online.after_minutes" <;> rfl
  · cases req.has "alarms.low_sv_count.enable" <;> rfl
  · rw [SettingsRequest.has]
    cases req.get "alarms.low_sv_count.remove" <;> rfl
  · intro a h
    rw [← Option.isNone_iff_eq_none.mp (Option.isSome_eq_false_iff.mp h)]
  · rw [updatedNumbers]
    cases req.asks ConfigEdit.lowSvKeys <;> rfl
  · cases req.has "alarms.position_drift.enable" <;> rfl
  · rw [SettingsRequest.has]
    cases req.get "alarms.position_drift.remove" <;> rfl
  · intro a h
    rw [← Option.isNone_iff_eq_none.mp (Option.isSome_eq_false_iff.mp h)]
  · rw [updatedNumbers]
    cases req.asks ConfigEdit.driftKeys <;> rfl

theorem forall₂_listEdits :
    List.Forall₂ AlarmsStep (ConfigEdit.listEdits ext req) (listSteps ext req) := by
  refine .cons (alarmsStep_alarms fun a => ?_) (.cons (alarmsStep_alarms fun a => ?_) .nil)
  · cases req.get "alarms.recipients.set" <;> rfl
  · cases req.get "alarms.mountpoints.set" <;> rfl

/-- A setting of the mail server, on the mail server. -/
def setSmtp (o : Option CString) (assign : CString → ConfigAlarmsSmtp → ConfigAlarmsSmtp)
    (s : Option ConfigAlarmsSmtp) : Option ConfigAlarmsSmtp :=
  (o.map fun v => assign v (s.getD ⟨none, 0, .none, none⟩)).or s

/-- The four settings of the mail server, one after the other. -/
theorem setSmtp_setSmtp (host port authFile tls : Option CString) (s : Option ConfigAlarmsSmtp) :
    setSmtp tls (fun v s => { s with tls := ConfigEdit.tlsValue v })
      (setSmtp authFile (fun v s => { s with authFile := some v })
        (setSmtp port (fun v s => { s with port := BitVec.ofInt 16 ((wholeNumber v).getD 0) })
          (setSmtp host (fun v s => { s with host := some v }) s))) =
      if s.isSome ||
          (host.isSome || (port.isSome || (authFile.isSome || (tls.isSome || false)))) then
        some
          { host := host.or (s.getD ⟨none, 0, .none, none⟩).host
            port := (port.map fun v => BitVec.ofInt 16 ((wholeNumber v).getD 0)).getD
              (s.getD ⟨none, 0, .none, none⟩).port
            tls := (tls.map ConfigEdit.tlsValue).getD (s.getD ⟨none, 0, .none, none⟩).tls
            authFile := authFile.or (s.getD ⟨none, 0, .none, none⟩).authFile }
      else none := by
  cases s <;> cases host <;> cases port <;> cases authFile <;> cases tls <;> rfl

/-- The settings of the alarms, as one edit. -/
theorem foldl_alarmsSteps (ext : SettingsText) (req : SettingsRequest) (a : ConfigAlarms) :
    ((sectionSteps req ++ (thresholdSteps req ++ listSteps ext req)).foldl
      (fun f step => step.2 ∘ f) id) a = updatedAlarms .code ext req a := by
  refine ConfigAlarms.ext ?_ rfl rfl rfl rfl rfl rfl rfl rfl rfl rfl
  exact setSmtp_setSmtp _ _ _ _ a.smtp

/-- The settings, one after the other, ask for something when one of them does. -/
theorem foldl_asks (l : List (Bool × (ConfigAlarms → ConfigAlarms))) (asked : Bool) :
    l.foldl (fun b step => b || step.1) asked = (asked || l.any Prod.fst) := by
  induction l generalizing asked with
  | nil => rw [List.foldl_nil, List.any_nil, Bool.or_false]
  | cons step l ih => rw [List.foldl_cons, ih, List.any_cons, Bool.or_assoc]

theorem any_alarmsSteps (ext : SettingsText) (req : SettingsRequest) :
    (sectionSteps req ++ (thresholdSteps req ++ listSteps ext req)).foldl
      (fun b step => b || step.1) false = req.asks alarmsKeys := by
  rw [foldl_asks, Bool.false_or, List.any_append, List.any_append, sectionSteps, thresholdSteps,
    listSteps]
  simp only [List.any_cons, List.any_nil, SettingsRequest.asks, alarmsKeys, ConfigEdit.lowSvKeys,
    ConfigEdit.driftKeys, Bool.or_false, Bool.false_or, Bool.or_assoc, SettingsRequest.has]

/-- **The settings, carried out one after the other.** -/
theorem foldl_settingsEdits (ext : SettingsText) (req : SettingsRequest) (s : Config × Bool) :
    ((settingsEdits ext req).foldl (fun s e => e.apply s) s).1 = s.1.updated .code ext req := by
  have hlevel : ((ConfigEdit.logLevel req).apply s).1 = { s.1 with
      logLevel := ((req.get "log_level").map fun v => (logLevelFromName v).getD 0).getD
        s.1.logLevel } := by
    rw [ConfigEdit.apply, ConfigEdit.logLevel]
    cases req.get "log_level" <;> rfl
  have hgiven : req.top topFields = fun field => req.get field.postKey := by
    funext field
    exact if_pos (mem_topFields field)
  have halarms : List.Forall₂ AlarmsStep (ConfigEdit.sectionEdits ext req ++
      (ConfigEdit.thresholdEdits ext req ++ ConfigEdit.listEdits ext req))
      (sectionSteps req ++ (thresholdSteps req ++ listSteps ext req)) :=
    List.rel_append forall₂_sectionEdits (List.rel_append forall₂_thresholdEdits forall₂_listEdits)
  have hsteps : (sectionSteps req ++ (thresholdSteps req ++ listSteps ext req)).foldl
      (fun f step => step.2 ∘ f) id = updatedAlarms .code ext req := by
    funext a
    exact foldl_alarmsSteps ext req a
  rw [settingsEdits, List.foldl_cons, List.foldl_append,
    foldl_alarms halarms (fun _ => rfl) (withAlarms_id (g := id) (fun _ => rfl) _).symm,
    any_alarmsSteps, hsteps, foldl_top, hlevel, hgiven]
  rfl

end

end ChilopodCaster
