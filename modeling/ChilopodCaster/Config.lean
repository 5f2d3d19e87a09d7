import ChilopodCaster.AccountFiles

/-!
# The configuration file

`config.c` reads the configuration with cyaml, which fills `struct config` from a YAML text along a
schema, and then sets defaults and checks what the schema cannot say. The settings API reads the
same text into the same structure, without defaults, changes fields of it and writes it back.

The fields here are those that the settings API can change, and those that `config_parse` checks.
Fields of one type are grouped: a field is a function on the names of its type. The schema does not
have all of them.

## Main definitions

* `Config` — `struct config`, as cyaml fills it
* `Config.saved` — what is left of it once it has been written and read
* `Config.configParse` — `config_parse`, on that structure
* `Config.Accepted` — it returns a configuration
-/

namespace ChilopodCaster

/-- The fields that are strings. -/
inductive StringField
  | adminUser
  | trustedHttpIpHeader
  | hostAuthFilename
  | sourceAuthFilename
  | roverAuthFilename
  | userAuthFilename
  | blocklistFilename
  | sourcetableFilename
  | sidecarStatsFilename
  | accessLog
  | log
  | uiDir
  deriving DecidableEq, Repr

/-- The fields that are of type `int`. -/
inductive IntField
  | idleMaxDelay
  | reconnectDelay
  | minRawPacket
  | maxRawPacket
  | sourcetablePriority
  | onDemandSourceTimeout
  | nearestBaseCountTarget
  | minNearestRecomputeInterval
  | maxNearestRecomputeInterval
  | sourceReadTimeout
  | ntripcliDefaultReadTimeout
  | ntripcliDefaultWriteTimeout
  | ntripsrvDefaultReadTimeout
  | ntripsrvDefaultWriteTimeout
  deriving DecidableEq, Repr

/-- The fields that are of type `size_t`. -/
inductive SizeField
  | backlogSocket
  | backlogEvbuffer
  | httpHeaderMaxSize
  | httpContentLengthMax
  deriving DecidableEq, Repr

/-- The fields that are of type `float`. -/
inductive FloatField
  | hysteresisM
  | maxNearestLookupDistanceM
  | minNearestRecomputePosDelta
  deriving DecidableEq, Repr

/-- The fields that the schema does not have. -/
def IntField.unlisted : List IntField :=
  [.reconnectDelay, .minRawPacket, .maxRawPacket, .minNearestRecomputeInterval,
    .maxNearestRecomputeInterval]

/-- The fields that the schema does not have. -/
def FloatField.unlisted : List FloatField := [.minNearestRecomputePosDelta]

/-- The strings that the schema requires. -/
def StringField.required : List StringField :=
  [.sourceAuthFilename, .hostAuthFilename, .sourcetableFilename, .accessLog, .log]

/-- `enum config_alarms_tls`. -/
inductive AlarmsTls
  | none
  | starttls
  | smtps
  deriving DecidableEq, Repr

/-- `struct config_alarms_smtp`. -/
structure ConfigAlarmsSmtp where
  host : Option CString
  port : BitVec 16
  tls : AlarmsTls
  authFile : Option CString
  deriving DecidableEq, Repr

/-- `struct config_alarms_recipient`. -/
structure ConfigAlarmsRecipient where
  name : Option CString
  email : CString
  alarmTypes : Option (List CString)
  deriving DecidableEq, Repr

/-- `struct config_alarms_mountpoint`. -/
structure ConfigAlarmsMountpoint where
  mountpoint : CString
  alarmTypes : Option (List CString)
  deriving DecidableEq, Repr

/-- `struct config_alarms_low_sv`. -/
structure ConfigAlarmsLowSv where
  minSats : ℤ
  afterMinutes : ℤ
  deriving DecidableEq, Repr

/-- `struct config_alarms_position_drift`. -/
structure ConfigAlarmsPositionDrift where
  latMm : ℤ
  lonMm : ℤ
  altMm : ℤ
  afterMinutes : ℤ
  deriving DecidableEq, Repr

/-- `struct config_alarms`. A threshold is its field `after_minutes`. -/
@[ext]
structure ConfigAlarms where
  smtp : Option ConfigAlarmsSmtp
  recipients : List ConfigAlarmsRecipient
  mountpoints : List ConfigAlarmsMountpoint
  subject : Option CString
  minIntervalMinutes : ℤ
  ruckusPath : Option CString
  emailTemplate : Option CString
  stationOffline : Option ℤ
  stationOnline : Option ℤ
  lowSvCount : Option ConfigAlarmsLowSv
  positionDrift : Option ConfigAlarmsPositionDrift
  deriving DecidableEq, Repr

/-- `struct config`, as cyaml fills it. A field that is not in the text is `NULL` or zero. -/
@[ext]
structure Config where
  strings : StringField → Option CString
  ints : IntField → ℤ
  sizes : SizeField → ℕ
  floats : FloatField → ℚ
  logLevel : ℤ
  trustedHttpProxy : List CString
  alarms : Option ConfigAlarms

/-- `LOG_LEVELS` -/
def logLevels : List (CString × ℤ) :=
  [(cstr "EMERG", 0), (cstr "ALERT", 1), (cstr "CRIT", 2), (cstr "ERR", 3), (cstr "WARNING", 4),
    (cstr "NOTICE", 5), (cstr "INFO", 6), (cstr "DEBUG", 7), (cstr "EDEBUG", 8)]

/-- `log_level_name` -/
def logLevelName (level : ℤ) : Option CString :=
  (logLevels.find? (·.2 = level)).map Prod.fst

/-- `log_level_from_name`, where -1 is `none`. -/
def logLevelFromName (name : CString) : Option ℤ :=
  (logLevels.find? fun l => !strcasecmp l.1 name).map Prod.snd

namespace Config

/-- What cyaml reads back after it has written the structure: the fields that are not in the schema
are zero again. -/
def saved (this : Config) : Config :=
  { this with
    ints := fun f => if f ∈ IntField.unlisted then 0 else this.ints f
    floats := fun f => if f ∈ FloatField.unlisted then 0 else this.floats f }

/-- The file that has the accounts of mail servers. -/
def smtpAuthFile (this : Config) : Option CString :=
  this.alarms.bind fun alarms => alarms.smtp.bind ConfigAlarmsSmtp.authFile

/-! ### Defaults and checks -/

/-- The strings that `DEFAULT_ASSIGN_DUP` sets, from `default_config`. -/
def defaultString : StringField → Option CString
  | .sourcetableFilename => some (cstr "sourcetable.dat")
  | .accessLog => some (cstr "/var/log/chilopod/access.log")
  | .log => some (cstr "/var/log/chilopod/caster.log")
  | .adminUser => some (cstr "admin")
  | _ => none

/-- The numbers that `DEFAULT_ASSIGN` sets. -/
def defaultInt : IntField → ℤ
  | .idleMaxDelay => 60
  | .reconnectDelay => 10
  | .minRawPacket => 0
  | .maxRawPacket => 1450
  | .sourcetablePriority => 90
  | .onDemandSourceTimeout => 60
  | .nearestBaseCountTarget => 10
  | .minNearestRecomputeInterval => 10
  | .maxNearestRecomputeInterval => 120
  | .sourceReadTimeout => 60
  | .ntripcliDefaultReadTimeout => 60
  | .ntripcliDefaultWriteTimeout => 60
  | .ntripsrvDefaultReadTimeout => 60
  | .ntripsrvDefaultWriteTimeout => 60

def defaultSize : SizeField → ℕ
  | .backlogSocket => 112 * 1024
  | .backlogEvbuffer => 16 * 1024
  | .httpHeaderMaxSize => 8192
  | .httpContentLengthMax => 4000000

def defaultFloat : FloatField → ℚ
  | .hysteresisM => 500
  | .maxNearestLookupDistanceM => 1000000
  | .minNearestRecomputePosDelta => 10

/-- `valid_alarm_types`, and `ALARM_TYPE_NAMES` of the settings API. -/
def validAlarmTypes : List CString :=
  [cstr "station_offline", cstr "station_online", cstr "low_sv_count", cstr "position_drift"]

/-- The alarm type is known. -/
def isAlarmType (alarmType : CString) : Bool := validAlarmTypes.any (· = alarmType)

/-- Every alarm type in the list is known. -/
def typesValid (alarmTypes : Option (List CString)) : Bool := (alarmTypes.getD []).all isAlarmType

/-- The part of `config_parse` about alarms: the defaults, and what is refused. The field `smtp` is
read through its pointer, and `none` is a crash; the inner `none` is a refusal. -/
def parseAlarms (this : Config) (alarms : ConfigAlarms) : Option (Option ConfigAlarms) :=
  match alarms.smtp with
  | none => none
  | some smtp =>
    let alarms := { alarms with
      subject := some (alarms.subject.getD (cstr "Chilopod Alarm"))
      ruckusPath := some (alarms.ruckusPath.getD (cstr "/usr/local/sbin/ruckus"))
      emailTemplate := some (alarms.emailTemplate.getD (cstr "alarm-email.html"))
      smtp := some { smtp with port := if smtp.port = 0 then 587 else smtp.port }
      stationOffline := alarms.stationOffline.map fun v => if v = 0 then 5 else v }
    if alarms.lowSvCount.isSome ∧ this.strings .sidecarStatsFilename = none then some none
    else if !(alarms.recipients.all fun r => typesValid r.alarmTypes) then some none
    else if !(alarms.mountpoints.all fun m => typesValid m.alarmTypes) then some none
    else some (some alarms)

/-- The alarms of a configuration that is accepted. -/
structure AlarmsOk (this : Config) (alarms : ConfigAlarms) : Prop where
  smtp : alarms.smtp.isSome
  lowSvCount : alarms.lowSvCount.isSome → (this.strings .sidecarStatsFilename).isSome
  recipients : ∀ r ∈ alarms.recipients, typesValid r.alarmTypes
  mountpoints : ∀ m ∈ alarms.mountpoints, typesValid m.alarmTypes

theorem parseAlarms_eq_some_iff {this : Config} {alarms : ConfigAlarms} :
    (∃ alarms', this.parseAlarms alarms = some (some alarms')) ↔ this.AlarmsOk alarms := by
  rw [parseAlarms]
  cases hsmtp : alarms.smtp with
  | none =>
    refine iff_of_false (by simp) fun h => ?_
    have hsome := h.smtp
    rw [hsmtp] at hsome
    contradiction
  | some smtp =>
    dsimp only
    constructor
    · rintro ⟨alarms', h⟩
      split at h
      · simp at h
      · next hlow =>
        split at h
        · simp at h
        · next hrecipients =>
          split at h
          · simp at h
          · next hmountpoints =>
            refine ⟨by rw [hsmtp]; rfl, fun hsome => ?_, ?_, ?_⟩
            · rw [not_and] at hlow
              exact Option.isSome_iff_ne_none.mpr (hlow hsome)
            · simpa using hrecipients
            · simpa using hmountpoints
    · rintro ⟨-, hlow, hrecipients, hmountpoints⟩
      rw [if_neg, if_neg, if_neg]
      · exact ⟨_, rfl⟩
      · simpa using hmountpoints
      · simpa using hrecipients
      · rintro ⟨hsome, hnone⟩
        have := hlow hsome
        rw [hnone] at this
        contradiction

/-- The structure with the defaults that do not depend on others. -/
def withDefaults (this : Config) : Config :=
  { this with
    strings := fun f => if this.strings f = none then defaultString f else this.strings f
    ints := fun f => if this.ints f = 0 then defaultInt f else this.ints f
    sizes := fun f => if this.sizes f = 0 then defaultSize f else this.sizes f
    floats := fun f => if this.floats f = 0 then defaultFloat f else this.floats f
    logLevel := if this.logLevel = 0 then 6 else this.logLevel }

/-- The schema requires some strings, and in a section of alarms a mail server with a host and a
recipient. -/
def hasRequired (this : Config) : Bool :=
  (StringField.required.all fun f => (this.strings f).isSome) &&
    this.alarms.all fun alarms =>
      (alarms.smtp.bind ConfigAlarmsSmtp.host).isSome && alarms.recipients ≠ []

/-- The data that the schema requires are there. -/
structure Required (this : Config) : Prop where
  strings : ∀ f ∈ StringField.required, (this.strings f).isSome
  host : ∀ alarms, this.alarms = some alarms → (alarms.smtp.bind ConfigAlarmsSmtp.host).isSome
  recipients : ∀ alarms, this.alarms = some alarms → alarms.recipients ≠ []

theorem hasRequired_iff {this : Config} : this.hasRequired = true ↔ this.Required := by
  rw [hasRequired, Bool.and_eq_true, List.all_eq_true, Option.all_eq_true]
  constructor
  · rintro ⟨hstrings, halarms⟩
    refine ⟨hstrings, fun alarms h => ?_, fun alarms h => ?_⟩
    · exact (Bool.and_eq_true_iff.mp (halarms alarms h)).1
    · exact of_decide_eq_true (Bool.and_eq_true_iff.mp (halarms alarms h)).2
  · rintro ⟨hstrings, hhost, hrecipients⟩
    refine ⟨hstrings, fun alarms h => ?_⟩
    rw [Bool.and_eq_true]
    exact ⟨hhost alarms h, decide_eq_true (hrecipients alarms h)⟩

/-- `config_parse`, after cyaml has filled the structure. -/
def parseFilled (this : Config) : Option (Option Config) :=
  let this := this.withDefaults
  if !(this.trustedHttpProxy.all fun ip => (ipPrefixParse ip).isSome) then some none
  else
    match this.alarms with
    | none => some (some this)
    | some alarms => (this.parseAlarms alarms).map fun alarms =>
        alarms.map fun alarms => { this with alarms := some alarms }

/-- `config_parse`, on the structure that a text stands for. cyaml refuses a text without the data
that the schema requires. -/
def configParse (this : Config) : Option (Option Config) :=
  if this.hasRequired then this.parseFilled else some none

/-- `config_parse` returns a configuration. -/
def Accepted (this : Config) : Prop := ∃ that, this.configParse = some (some that)

/-- There is no default for the file that the alarm about satellites needs. -/
theorem alarmsOk_withDefaults {this : Config} {alarms : ConfigAlarms} :
    this.withDefaults.AlarmsOk alarms ↔ this.AlarmsOk alarms := by
  have hsame : this.withDefaults.strings .sidecarStatsFilename =
      this.strings .sidecarStatsFilename := by
    dsimp only [withDefaults]
    split
    · next hnone => exact hnone.symm
    · rfl
  constructor
  · rintro ⟨hsmtp, hlow, hrecipients, hmountpoints⟩
    exact ⟨hsmtp, hsame ▸ hlow, hrecipients, hmountpoints⟩
  · rintro ⟨hsmtp, hlow, hrecipients, hmountpoints⟩
    exact ⟨hsmtp, hsame.symm ▸ hlow, hrecipients, hmountpoints⟩

theorem parseFilled_eq_some_iff {this : Config} : (∃ that, this.parseFilled = some (some that)) ↔
    (∀ ip ∈ this.trustedHttpProxy, (ipPrefixParse ip).isSome) ∧
      ∀ alarms, this.alarms = some alarms → this.AlarmsOk alarms := by
  have halarms : this.withDefaults.alarms = this.alarms := rfl
  have hproxies : this.withDefaults.trustedHttpProxy = this.trustedHttpProxy := rfl
  rw [parseFilled]
  rw [halarms, hproxies]
  by_cases hall : ∀ ip ∈ this.trustedHttpProxy, (ipPrefixParse ip).isSome
  · have hproxy : (!(this.trustedHttpProxy.all fun ip => (ipPrefixParse ip).isSome)) = false := by
      rw [Bool.not_eq_false', List.all_eq_true]
      exact hall
    rw [hproxy, if_neg Bool.false_ne_true]
    cases hcase : this.alarms with
    | none => exact iff_of_true ⟨_, rfl⟩ ⟨hall, fun alarms h => by contradiction⟩
    | some alarms =>
      constructor
      · rintro ⟨that, hthat⟩
        obtain ⟨parsed, hparsed, hthat⟩ := Option.map_eq_some_iff.mp hthat
        obtain ⟨alarms', rfl, -⟩ := Option.map_eq_some_iff.mp hthat
        refine ⟨hall, fun alarms'' h => ?_⟩
        obtain rfl := Option.some.inj h
        exact alarmsOk_withDefaults.mp (parseAlarms_eq_some_iff.mp ⟨alarms', hparsed⟩)
      · rintro ⟨-, hok⟩
        obtain ⟨alarms', hparsed⟩ :=
          parseAlarms_eq_some_iff.mpr (alarmsOk_withDefaults.mpr (hok alarms rfl))
        dsimp only
        rw [hparsed]
        exact ⟨_, rfl⟩
  · have hproxy : (!(this.trustedHttpProxy.all fun ip => (ipPrefixParse ip).isSome)) = true := by
      rw [Bool.not_eq_true', ← Bool.not_eq_true, List.all_eq_true]
      exact hall
    rw [hproxy, if_pos rfl]
    refine iff_of_false ?_ fun h => hall h.1
    rintro ⟨that, hthat⟩
    exact absurd (Option.some.inj hthat) (Option.some_ne_none that).symm

/-- **What `config_parse` accepts.** -/
theorem accepted_iff {this : Config} :
    this.Accepted ↔ this.Required ∧
      (∀ ip ∈ this.trustedHttpProxy, (ipPrefixParse ip).isSome) ∧
        ∀ alarms, this.alarms = some alarms → this.AlarmsOk alarms := by
  rw [Accepted, configParse, ← hasRequired_iff, ← parseFilled_eq_some_iff]
  cases this.hasRequired with
  | true => exact (and_iff_right rfl).symm
  | false =>
    refine iff_of_false ?_ fun h => Bool.false_ne_true h.1
    rintro ⟨that, hthat⟩
    exact absurd (Option.some.inj hthat) (Option.some_ne_none that).symm

end Config

end ChilopodCaster
