import ChilopodCaster.Config
import ChilopodCaster.Json
import ChilopodCaster.Lib.Refusal

/-!
# The fields of a settings request

`POST /api/v1/settings` gives settings by name, as texts. Those of the configuration are looked at
one after the other, in a fixed order. A text that is not a value of its field refuses the request;
otherwise the field is set in the structure that has been read from the configuration file. Whether
a text is refused depends on nothing else.

The alarms are a section of their own. A setting in the section makes the section if there is none,
and a setting of the mail server makes that part of it.

## Main definitions

* `SettingsRequest` — the fields of a request
* `ConfigEdit` — what one setting does
* `settingsEdits` — the settings of the configuration, in the order of `api_settings_set_json`
-/

namespace ChilopodCaster

/-- The fields of a request, `req->hash`. A value is a C string. -/
structure SettingsRequest where
  hash : CString → Option CString
  nul : ∀ key v, hash key = some v → 0 ∉ v

namespace SettingsRequest

/-- `hash_table_get(req->hash, key)` -/
def get (req : SettingsRequest) (key : String) : Option CString := req.hash (cstr key)

theorem nul_ofList {fields : List (CString × CString)} (h : ∀ field ∈ fields, 0 ∉ field.2)
    (key v : CString) (hv : (fields.find? (·.1 = key)).map Prod.snd = some v) : 0 ∉ v := by
  obtain ⟨field, hfield, rfl⟩ := Option.map_eq_some_iff.mp hv
  exact h field (List.mem_of_find?_eq_some hfield)

/-- The request with these fields. -/
def ofList (fields : List (CString × CString)) (h : ∀ field ∈ fields, 0 ∉ field.2) :
    SettingsRequest where
  hash := fun key => (fields.find? (·.1 = key)).map Prod.snd
  nul := nul_ofList h

end SettingsRequest

/-- `field_is_safe` -/
def fieldIsSafe (s : CString) : Bool :=
  s.all fun c => c ≠ 0x3b ∧ c ≠ 0x3a ∧ c ≠ LF ∧ c ≠ CR

/-! ### Numbers in texts -/

/-- The number that a text is as a whole: white space, an optional sign and digits. This is what
`strtol` and `strtoul` read up to the end of the text, before they bring it into their range. -/
def wholeNumber (value : CString) : Option ℤ :=
  let s := value.dropWhile isspace
  let neg := s.head? = some 0x2d
  let s := if s.head? = some 0x2d ∨ s.head? = some 0x2b then s.tail else s
  if s ≠ [] ∧ s.all isdigit then some (if neg then -(decValue s : ℤ) else decValue s) else none

/-- `(int)strtol(value, &end, 10)` -/
def strtolInt (n : ℤ) : ℤ := (BitVec.ofInt 32 (max (-2 ^ 63) (min (2 ^ 63 - 1) n))).toInt

/-- `strtoul(value, &end, 10)` -/
def strtoul (n : ℤ) : ℕ := if SIZE_MAX < n.natAbs then SIZE_MAX else (n % 2 ^ 64).toNat

/-- Code outside the caster that the settings depend on. -/
structure SettingsText where
  /-- `strtod`, on a text that is a number as a whole -/
  strtod : CString → Option ℚ
  /-- `json_tokener_parse`; it returns a null pointer for a text that is not JSON -/
  tokenerParse : CString → Json
  /-- how json-c prints a value that is not a string -/
  text : Json → CString

/-! ### Scalar fields -/

/-- `enum settings_field_type` -/
inductive SettingsFieldType
  | sftString
  | sftInt
  | sftSize
  | sftFloat
  deriving DecidableEq, Repr

/-- The values that `apply_scalar_field` refuses, with its messages. -/
def scalarRefusal (ext : SettingsText) (type : SettingsFieldType) (value : CString) :
    Option CString :=
  match type with
  | .sftString =>
    if value = [] ∨ fieldIsSafe value = false then
      some (cstr "invalid or empty value for a setting")
    else none
  | .sftInt =>
    if wholeNumber value = none then some (cstr "a numeric setting is not a valid integer")
    else none
  | .sftSize =>
    if value.head? = some 0x2d ∨ (wholeNumber value).map strtoul = none ∨
        (wholeNumber value).map strtoul = some 0 then
      some (cstr "a size setting must be a positive integer")
    else none
  | .sftFloat =>
    if ext.strtod value = none then some (cstr "a numeric setting is not a valid number") else none

/-- The value of an accepted `int`. -/
def intValue (value : CString) : ℤ := ((wholeNumber value).map strtolInt).getD 0

/-- The value of an accepted `size_t`. -/
def sizeValue (value : CString) : ℕ := ((wholeNumber value).map strtoul).getD 0

/-- The value of an accepted `float`. -/
def floatValue (ext : SettingsText) (value : CString) : ℚ := (ext.strtod value).getD 0

/-- A field of `struct config` at the top. -/
inductive TopField
  | string (f : StringField)
  | int (f : IntField)
  | size (f : SizeField)
  | float (f : FloatField)
  deriving DecidableEq, Repr

namespace TopField

def type : TopField → SettingsFieldType
  | string _ => .sftString
  | int _ => .sftInt
  | size _ => .sftSize
  | float _ => .sftFloat

/-- The name in a request. -/
def postKey : TopField → String
  | string .adminUser => "admin_user"
  | string .trustedHttpIpHeader => "trusted_http_ip_header"
  | string .hostAuthFilename => "host_auth_filename"
  | string .sourceAuthFilename => "source_auth_filename"
  | string .roverAuthFilename => "rover_auth_filename"
  | string .userAuthFilename => "user_auth_filename"
  | string .blocklistFilename => "blocklist_filename"
  | string .sourcetableFilename => "sourcetable_filename"
  | string .sidecarStatsFilename => "sidecar_stats_filename"
  | string .accessLog => "access_log"
  | string .log => "log"
  | string .uiDir => "ui_dir"
  | int .idleMaxDelay => "idle_max_delay"
  | int .reconnectDelay => "reconnect_delay"
  | int .minRawPacket => "min_raw_packet"
  | int .maxRawPacket => "max_raw_packet"
  | int .sourcetablePriority => "sourcetable_priority"
  | int .onDemandSourceTimeout => "on_demand_source_timeout"
  | int .nearestBaseCountTarget => "nearest_base_count_target"
  | int .minNearestRecomputeInterval => "min_nearest_recompute_interval"
  | int .maxNearestRecomputeInterval => "max_nearest_recompute_interval"
  | int .sourceReadTimeout => "source_read_timeout"
  | int .ntripcliDefaultReadTimeout => "ntripcli_default_read_timeout"
  | int .ntripcliDefaultWriteTimeout => "ntripcli_default_write_timeout"
  | int .ntripsrvDefaultReadTimeout => "ntripsrv_default_read_timeout"
  | int .ntripsrvDefaultWriteTimeout => "ntripsrv_default_write_timeout"
  | size .backlogSocket => "backlog_socket"
  | size .backlogEvbuffer => "backlog_evbuffer"
  | size .httpHeaderMaxSize => "http_header_max_size"
  | size .httpContentLengthMax => "http_content_length_max"
  | float .hysteresisM => "hysteresis_m"
  | float .maxNearestLookupDistanceM => "max_nearest_lookup_distance_m"
  | float .minNearestRecomputePosDelta => "min_nearest_recompute_pos_delta"

/-- What `apply_scalar_field` does with a value that it accepts. -/
def assign (ext : SettingsText) (value : CString) (edit : Config) : TopField → Config
  | string f => { edit with strings := Function.update edit.strings f (some value) }
  | int f => { edit with ints := Function.update edit.ints f (intValue value) }
  | size f => { edit with sizes := Function.update edit.sizes f (sizeValue value) }
  | float f => { edit with floats := Function.update edit.floats f (floatValue ext value) }

end TopField

/-- `TOP_FIELDS` -/
def topFields : List TopField :=
  [.string .adminUser, .string .trustedHttpIpHeader, .string .hostAuthFilename,
    .string .sourceAuthFilename, .string .roverAuthFilename, .string .userAuthFilename,
    .string .blocklistFilename, .string .sourcetableFilename, .string .sidecarStatsFilename,
    .string .accessLog, .string .log, .string .uiDir,
    .int .idleMaxDelay, .int .reconnectDelay, .int .minRawPacket, .int .maxRawPacket,
    .int .sourcetablePriority, .int .onDemandSourceTimeout, .int .nearestBaseCountTarget,
    .int .minNearestRecomputeInterval, .int .maxNearestRecomputeInterval, .int .sourceReadTimeout,
    .int .ntripcliDefaultReadTimeout, .int .ntripcliDefaultWriteTimeout,
    .int .ntripsrvDefaultReadTimeout, .int .ntripsrvDefaultWriteTimeout,
    .size .backlogSocket, .size .backlogEvbuffer, .size .httpHeaderMaxSize,
    .size .httpContentLengthMax,
    .float .hysteresisM, .float .maxNearestLookupDistanceM, .float .minNearestRecomputePosDelta]

/-! ### Lists in texts -/

/-- A field that must be given, not be empty, and be safe. -/
def givenSafe (message : String) (value : Option CString) : Except CString CString :=
  match value with
  | some v => if v ≠ [] ∧ fieldIsSafe v then .ok v else .error (cstr message)
  | none => .error (cstr message)

/-- `parse_alarm_types`. The inner `none` is an array that was never allocated. -/
def parseAlarmTypes (value : CString) : Option (Option (List CString)) :=
  let types := ((value.splitOn 0x2c).filter (· ≠ [])).map fun tok => tok.dropWhile (· = 0x20)
  if types.all Config.isAlarmType then some (if types = [] then none else some types)
  else none

/-- One element of `alarms.recipients.set`. -/
def recipientFromJson (ext : SettingsText) (jr : Json) : Except CString ConfigAlarmsRecipient :=
  (givenSafe "invalid or empty recipient email"
      ((jr.objectGet (cstr "email")).getString ext.text)).bind fun email =>
    match parseAlarmTypes (((jr.objectGet (cstr "alarm_types")).getString ext.text).getD []) with
    | some types =>
      .ok ⟨((jr.objectGet (cstr "name")).getString ext.text).filter (· ≠ []), email, types⟩
    | none => .error (cstr "unknown alarm type in a recipient's alarm_types")

/-- `recipients_from_json` -/
def recipientsFromJson (ext : SettingsText) (jarr : Json) :
    Except CString (List ConfigAlarmsRecipient) :=
  match jarr with
  | .array l =>
    if l = [] then .error (cstr "at least one recipient is required")
    else l.mapM (recipientFromJson ext)
  | _ => .error (cstr "alarms.recipients.set must be a JSON array")

/-- One element of `alarms.mountpoints.set`, after others. -/
def mountpointFromJson (ext : SettingsText) (mountpoints : List ConfigAlarmsMountpoint)
    (jm : Json) : Except CString (List ConfigAlarmsMountpoint) :=
  (givenSafe "invalid or empty mountpoint name"
      ((jm.objectGet (cstr "mountpoint")).getString ext.text)).bind fun mp =>
    if mountpoints.any (·.mountpoint = mp) then
      .error (cstr "duplicate mountpoint in alarms.mountpoints.set")
    else
      match parseAlarmTypes (((jm.objectGet (cstr "alarm_types")).getString ext.text).getD []) with
      | some types => .ok (mountpoints ++ [⟨mp, types⟩])
      | none => .error (cstr "unknown alarm type in a mountpoint's alarm_types")

/-- `mountpoints_from_json` -/
def mountpointsFromJson (ext : SettingsText) (jarr : Json) :
    Except CString (List ConfigAlarmsMountpoint) :=
  match jarr with
  | .array l => l.foldlM (mountpointFromJson ext) []
  | _ => .error (cstr "alarms.mountpoints.set must be a JSON array")

/-- The value of `alarms.recipients.set`. -/
def recipientsValue (ext : SettingsText) (v : CString) :
    Except CString (List ConfigAlarmsRecipient) :=
  if (ext.tokenerParse v).isNull then .error (cstr "alarms.recipients.set is not valid JSON")
  else recipientsFromJson ext (ext.tokenerParse v)

/-- The value of `alarms.mountpoints.set`. -/
def mountpointsValue (ext : SettingsText) (v : CString) :
    Except CString (List ConfigAlarmsMountpoint) :=
  if (ext.tokenerParse v).isNull then .error (cstr "alarms.mountpoints.set is not valid JSON")
  else mountpointsFromJson ext (ext.tokenerParse v)

/-- The message of a failure. -/
def failure {α : Type} : Except CString α → Option CString
  | .error message => some message
  | .ok _ => none

/-- The list of a success. -/
def listed {α : Type} : Except CString (List α) → List α
  | .error _ => []
  | .ok l => l

/-! ### Edits of the configuration -/

/-- What one setting does: refuse the request, or edit the structure that was read from the file.
The edit is `none` when there is nothing to do. -/
structure ConfigEdit where
  refusal : Option CString
  effect : Config → Option Config

/-- The alarms that `calloc` makes. -/
def ConfigAlarms.zero : ConfigAlarms :=
  ⟨none, [], [], none, 0, none, none, none, none, none, none⟩

/-- `ensure_alarms` -/
def Config.ensureAlarms (edit : Config) : ConfigAlarms := edit.alarms.getD .zero

/-- `ensure_smtp` -/
def ConfigAlarms.ensureSmtp (alarms : ConfigAlarms) : ConfigAlarmsSmtp :=
  alarms.smtp.getD ⟨none, 0, .none, none⟩

namespace ConfigEdit

variable (ext : SettingsText) (req : SettingsRequest)

def logLevel : ConfigEdit where
  refusal := (req.get "log_level").bind fun v =>
    if logLevelFromName v = none then some (cstr "invalid log_level") else none
  effect edit := (req.get "log_level").map fun v =>
    { edit with logLevel := (logLevelFromName v).getD 0 }

/-- One entry of `TOP_FIELDS`. -/
def top (field : TopField) : ConfigEdit where
  refusal := (req.get field.postKey).bind (scalarRefusal ext field.type)
  effect edit := (req.get field.postKey).map fun value => field.assign ext value edit

/-- A setting in the section of alarms. -/
def alarms (key : String) (refusal : CString → Option CString)
    (assign : CString → ConfigAlarms → ConfigAlarms) : ConfigEdit where
  refusal := (req.get key).bind refusal
  effect edit := (req.get key).map fun v =>
    { edit with alarms := some (assign v edit.ensureAlarms) }

/-- A setting of the mail server. -/
def smtp (key : String) (refusal : CString → Option CString)
    (assign : CString → ConfigAlarmsSmtp → ConfigAlarmsSmtp) : ConfigEdit :=
  alarms req key refusal fun v a => { a with smtp := some (assign v a.ensureSmtp) }

/-- An alarm is removed, if it is there. -/
def remove (key : String) (present : ConfigAlarms → Bool) (clear : ConfigAlarms → ConfigAlarms) :
    ConfigEdit where
  refusal := none
  effect edit :=
    if (req.get key).isSome then
      (edit.alarms.filter present).map fun a => { edit with alarms := some (clear a) }
    else none

/-- The numbers of an alarm are set together. -/
def numbers (keys : List String) (assign : ConfigAlarms → ConfigAlarms) : ConfigEdit where
  refusal := keys.findSome? fun key => (req.get key).bind (scalarRefusal ext .sftInt)
  effect edit :=
    if keys.any fun key => (req.get key).isSome then
      some { edit with alarms := some (assign edit.ensureAlarms) }
    else none

/-- The number that is given, or the one that is there. -/
def number (key : String) (old : ℤ) : ℤ := ((req.get key).map intValue).getD old

/-- The numbers of the alarm about satellites. -/
def lowSvKeys : List String := ["alarms.low_sv_count.min_sats", "alarms.low_sv_count.after_minutes"]

/-- The numbers of the alarm about positions. -/
def driftKeys : List String :=
  ["alarms.position_drift.lat_mm", "alarms.position_drift.lon_mm", "alarms.position_drift.alt_mm",
    "alarms.position_drift.after_minutes"]

def lowSvNumbers (t : ConfigAlarmsLowSv) : ConfigAlarmsLowSv where
  minSats := number req "alarms.low_sv_count.min_sats" t.minSats
  afterMinutes := number req "alarms.low_sv_count.after_minutes" t.afterMinutes

def driftNumbers (t : ConfigAlarmsPositionDrift) : ConfigAlarmsPositionDrift where
  latMm := number req "alarms.position_drift.lat_mm" t.latMm
  lonMm := number req "alarms.position_drift.lon_mm" t.lonMm
  altMm := number req "alarms.position_drift.alt_mm" t.altMm
  afterMinutes := number req "alarms.position_drift.after_minutes" t.afterMinutes

/-- Nothing is refused. -/
def accept : CString → Option CString := fun _ => none

def portRefusal (v : CString) : Option CString :=
  if ∃ n ∈ wholeNumber v, 0 ≤ n ∧ n ≤ 65535 then none
  else some (cstr "alarms.smtp.port must be a valid port number")

def tlsRefusal (v : CString) : Option CString :=
  if strcasecmp v (cstr "none") ∧ strcasecmp v (cstr "starttls") ∧ strcasecmp v (cstr "smtps") then
    some (cstr "alarms.smtp.tls must be none, starttls or smtps")
  else none

def tlsValue (v : CString) : AlarmsTls :=
  if !strcasecmp v (cstr "starttls") then .starttls
  else if !strcasecmp v (cstr "smtps") then .smtps
  else .none

/-- The settings of the section itself, and of the mail server. -/
def sectionEdits : List ConfigEdit :=
  [alarms req "alarms.subject" (scalarRefusal ext .sftString) fun v a =>
      { a with subject := some v },
    alarms req "alarms.min_interval_minutes" (scalarRefusal ext .sftInt) fun v a =>
      { a with minIntervalMinutes := intValue v },
    alarms req "alarms.ruckus_path" (scalarRefusal ext .sftString) fun v a =>
      { a with ruckusPath := some v },
    alarms req "alarms.email_template" (scalarRefusal ext .sftString) fun v a =>
      { a with emailTemplate := some v },
    smtp req "alarms.smtp.host" (scalarRefusal ext .sftString) fun v s => { s with host := some v },
    smtp req "alarms.smtp.port" portRefusal fun v s =>
      { s with port := BitVec.ofInt 16 ((wholeNumber v).getD 0) },
    smtp req "alarms.smtp.auth_file" (scalarRefusal ext .sftString) fun v s =>
      { s with authFile := some v },
    smtp req "alarms.smtp.tls" tlsRefusal fun v s => { s with tls := tlsValue v }]

/-- The settings that turn alarms on and off, and their numbers. -/
def thresholdEdits : List ConfigEdit :=
  [alarms req "alarms.station_offline.enable" accept fun _ a =>
      { a with stationOffline := some (a.stationOffline.getD 0) },
    remove req "alarms.station_offline.remove" (fun a => a.stationOffline.isSome) fun a =>
      { a with stationOffline := none },
    alarms req "alarms.station_offline.after_minutes" (scalarRefusal ext .sftInt) fun v a =>
      { a with stationOffline := some (intValue v) },
    alarms req "alarms.station_online.enable" accept fun _ a =>
      { a with stationOnline := some (a.stationOnline.getD 0) },
    remove req "alarms.station_online.remove" (fun a => a.stationOnline.isSome) fun a =>
      { a with stationOnline := none },
    alarms req "alarms.station_online.after_minutes" (scalarRefusal ext .sftInt) fun v a =>
      { a with stationOnline := some (intValue v) },
    alarms req "alarms.low_sv_count.enable" accept fun _ a =>
      { a with lowSvCount := some (a.lowSvCount.getD ⟨0, 0⟩) },
    remove req "alarms.low_sv_count.remove" (fun a => a.lowSvCount.isSome) fun a =>
      { a with lowSvCount := none },
    numbers ext req lowSvKeys fun a =>
      { a with lowSvCount := some (lowSvNumbers req (a.lowSvCount.getD ⟨0, 0⟩)) },
    alarms req "alarms.position_drift.enable" accept fun _ a =>
      { a with positionDrift := some (a.positionDrift.getD ⟨0, 0, 0, 0⟩) },
    remove req "alarms.position_drift.remove" (fun a => a.positionDrift.isSome) fun a =>
      { a with positionDrift := none },
    numbers ext req driftKeys fun a =>
      { a with positionDrift := some (driftNumbers req (a.positionDrift.getD ⟨0, 0, 0, 0⟩)) }]

/-- The settings that replace a list. -/
def listEdits : List ConfigEdit :=
  [alarms req "alarms.recipients.set" (fun v => failure (recipientsValue ext v)) fun v a =>
      { a with recipients := listed (recipientsValue ext v) },
    alarms req "alarms.mountpoints.set" (fun v => failure (mountpointsValue ext v)) fun v a =>
      { a with mountpoints := listed (mountpointsValue ext v) }]

/-- A setting, on the structure and the flag `yaml_changed`. -/
def apply (this : ConfigEdit) (s : Config × Bool) : Config × Bool :=
  ((this.effect s.1).map fun edit => (edit, true)).getD s

end ConfigEdit

/-- The settings of the configuration, in the order of `api_settings_set_json`. -/
def settingsEdits (ext : SettingsText) (req : SettingsRequest) : List ConfigEdit :=
  ConfigEdit.logLevel req :: (topFields.map (ConfigEdit.top ext req) ++
    (ConfigEdit.sectionEdits ext req ++ (ConfigEdit.thresholdEdits ext req ++
      ConfigEdit.listEdits ext req)))

end ChilopodCaster
