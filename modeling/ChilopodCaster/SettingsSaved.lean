import ChilopodCaster.Lib.Fold
import ChilopodCaster.Settings

/-!
# The configuration that is saved

The settings API looks at each field alone. `config_parse` also looks at fields together: a section
of alarms must have a mail server and a recipient, and the alarm about satellites needs the file
with their counts. So settings that are each valid can make a file that the caster then refuses, at
the reload that follows and at every restart.

## Main definitions

* `SettingsConsistent` — the settings of a request go together

## Main results

* `accepted_saved_iff` — the file that is written is accepted exactly if they do
-/

namespace ChilopodCaster

variable {ext : SettingsText} {req : SettingsRequest} {c : Config}

/-- The request turns the alarm about satellites on. -/
def asksLowSv (req : SettingsRequest) : Prop :=
  req.asks ConfigEdit.lowSvKeys = true ∨
    req.has "alarms.low_sv_count.enable" = true ∧ req.has "alarms.low_sv_count.remove" = false

/-- The settings go together, and with the configuration file: a section of alarms that the request
makes has a mail server and recipients, and the alarm about satellites is not turned on without
their file. -/
structure SettingsConsistent (req : SettingsRequest) (c : Config) : Prop where
  host : c.alarms = none → req.asks alarmsKeys = true → req.has "alarms.smtp.host" = true
  recipients : c.alarms = none → req.asks alarmsKeys = true → req.has "alarms.recipients.set" = true
  lowSv : asksLowSv req → (c.strings .sidecarStatsFilename).isSome ∨
    req.has "sidecar_stats_filename" = true

/-! ### Alarm types -/

theorem typesValid_of_parseAlarmTypes {value : CString} {types : Option (List CString)}
    (h : parseAlarmTypes value = some types) : Config.typesValid types = true := by
  simp only [parseAlarmTypes] at h
  split at h
  · next hall =>
    obtain rfl := Option.some.inj h
    rw [Config.typesValid]
    split
    · rfl
    · exact hall
  · contradiction

theorem typesValid_of_recipientFromJson {jr : Json} {r : ConfigAlarmsRecipient}
    (h : recipientFromJson ext jr = .ok r) : Config.typesValid r.alarmTypes = true := by
  rw [recipientFromJson] at h
  cases hemail : givenSafe "invalid or empty recipient email"
      ((jr.objectGet (cstr "email")).getString ext.text) with
  | error message =>
    rw [hemail] at h
    contradiction
  | ok email =>
    rw [hemail, Except.bind] at h
    split at h
    · next types htypes =>
      obtain rfl := Except.ok.inj h
      exact typesValid_of_parseAlarmTypes htypes
    · contradiction

theorem typesValid_of_mountpointFromJson {mountpoints mountpoints' : List ConfigAlarmsMountpoint}
    {jm : Json} (hvalid : ∀ m ∈ mountpoints, Config.typesValid m.alarmTypes = true)
    (h : mountpointFromJson ext mountpoints jm = .ok mountpoints') :
    ∀ m ∈ mountpoints', Config.typesValid m.alarmTypes = true := by
  rw [mountpointFromJson] at h
  cases hname : givenSafe "invalid or empty mountpoint name"
      ((jm.objectGet (cstr "mountpoint")).getString ext.text) with
  | error message =>
    rw [hname] at h
    contradiction
  | ok mp =>
    rw [hname, Except.bind] at h
    split at h
    · contradiction
    · split at h
      · next types htypes =>
        obtain rfl := Except.ok.inj h
        intro m hm
        rcases List.mem_append.mp hm with hm | hm
        · exact hvalid m hm
        · obtain rfl := List.mem_singleton.mp hm
          exact typesValid_of_parseAlarmTypes htypes
      · contradiction

theorem typesValid_of_recipientsValue {v : CString} :
    ∀ r ∈ listed (recipientsValue ext v), Config.typesValid r.alarmTypes = true := by
  cases hvalue : recipientsValue ext v with
  | error message =>
    intro r hr
    exact absurd hr List.not_mem_nil
  | ok recipients =>
    rw [recipientsValue] at hvalue
    split at hvalue
    · contradiction
    · unfold recipientsFromJson at hvalue
      split at hvalue
      · split at hvalue
        · contradiction
        · exact Fold.forall_mem_of_mapM_except (fun _ _ => typesValid_of_recipientFromJson) hvalue
      · contradiction

theorem typesValid_of_mountpointsValue {v : CString} :
    ∀ m ∈ listed (mountpointsValue ext v), Config.typesValid m.alarmTypes = true := by
  cases hvalue : mountpointsValue ext v with
  | error message =>
    intro m hm
    exact absurd hm List.not_mem_nil
  | ok mountpoints =>
    rw [mountpointsValue] at hvalue
    split at hvalue
    · contradiction
    · unfold mountpointsFromJson at hvalue
      split at hvalue
      · next l hl =>
        have hnone : ∀ m ∈ ([] : List ConfigAlarmsMountpoint),
            Config.typesValid m.alarmTypes = true :=
          fun m hm => absurd hm List.not_mem_nil
        exact Fold.preserves_except (fun _ _ _ => typesValid_of_mountpointFromJson) l hnone hvalue
      · contradiction

/-! ### The section of alarms -/

theorem asks_mono {keys keys' : List String} (h : keys ⊆ keys') (hasks : req.asks keys = true) :
    req.asks keys' = true := by
  rw [SettingsRequest.asks, List.any_eq_true] at hasks ⊢
  obtain ⟨key, hkey, hsome⟩ := hasks
  exact ⟨key, h hkey, hsome⟩

theorem asks_of_has {keys : List String} {key : String} (hkey : key ∈ keys)
    (h : req.has key = true) : req.asks keys = true :=
  List.any_eq_true.mpr ⟨key, hkey, h⟩

/-- A request for the alarm about satellites makes the section. -/
theorem asks_alarmsKeys_of_asksLowSv (h : asksLowSv req) : req.asks alarmsKeys = true := by
  rcases h with hkeys | ⟨henable, -⟩
  · exact asks_mono (by decide) hkeys
  · exact asks_of_has (by decide) henable

theorem isSome_updatedLowSv (cv : Conversion) (a : ConfigAlarms) :
    (updatedAlarms cv ext req a).lowSvCount.isSome = true ↔
      asksLowSv req ∨ a.lowSvCount.isSome = true ∧
        req.has "alarms.low_sv_count.remove" = false := by
  rw [updatedAlarms, asksLowSv, SettingsRequest.has, SettingsRequest.has]
  dsimp only
  rw [updatedNumbers, switched]
  cases req.asks ConfigEdit.lowSvKeys <;> cases (req.get "alarms.low_sv_count.remove").isSome <;>
    cases (req.get "alarms.low_sv_count.enable").isSome <;> simp

theorem isSome_updatedHost (cv : Conversion) (a : ConfigAlarms) :
    ((updatedAlarms cv ext req a).smtp.bind ConfigAlarmsSmtp.host).isSome = true ↔
      (a.smtp.bind ConfigAlarmsSmtp.host).isSome = true ∨ req.has "alarms.smtp.host" = true := by
  have hasks : req.has "alarms.smtp.host" = true → req.asks smtpKeys = true :=
    asks_of_has (by decide)
  have hhost : (updatedSmtp req a.ensureSmtp).host.isSome = true ↔
      (a.smtp.bind ConfigAlarmsSmtp.host).isSome = true ∨ req.has "alarms.smtp.host" = true := by
    rw [updatedSmtp, ConfigAlarms.ensureSmtp, Option.isSome_or, Bool.or_eq_true, or_comm]
    cases a.smtp <;> rfl
  rw [updatedAlarms]
  dsimp only
  split
  · exact hhost
  · next hnone =>
    rw [Bool.or_eq_true, not_or, Bool.not_eq_true, Option.isSome_eq_false_iff,
      Option.isNone_iff_eq_none] at hnone
    refine iff_of_false Bool.false_ne_true ?_
    rw [hnone.1, not_or]
    exact ⟨Bool.false_ne_true, mt hasks hnone.2⟩

/-- A list of recipients that is accepted is not empty. -/
theorem recipientsValue_ne_nil {v : CString} {recipients : List ConfigAlarmsRecipient}
    (h : recipientsValue ext v = .ok recipients) : recipients ≠ [] := by
  rw [recipientsValue] at h
  split at h
  · contradiction
  · unfold recipientsFromJson at h
    split at h
    · next l hl =>
      split at h
      · contradiction
      · next hne => exact Fold.mapM_except_ne_nil hne h
    · contradiction

theorem updatedRecipients_ne_nil (hvalid : SettingsValid ext req) (cv : Conversion)
    (a : ConfigAlarms) : (updatedAlarms cv ext req a).recipients ≠ [] ↔
      a.recipients ≠ [] ∨ req.has "alarms.recipients.set" = true := by
  have hrefusal := hvalid (ConfigEdit.alarms req "alarms.recipients.set"
    (fun v => failure (recipientsValue ext v)) fun v a => { a with
      recipients := listed (recipientsValue ext v) })
    (by simp [settingsEdits, ConfigEdit.listEdits])
  rw [ConfigEdit.alarms] at hrefusal
  rw [updatedAlarms, SettingsRequest.has]
  dsimp only at hrefusal ⊢
  cases hv : req.get "alarms.recipients.set" with
  | none => exact (or_iff_left Bool.false_ne_true).symm
  | some v =>
    refine iff_of_true ?_ (.inr rfl)
    rw [hv, Option.bind_some] at hrefusal
    cases hvalue : recipientsValue ext v with
    | error message =>
      rw [hvalue] at hrefusal
      contradiction
    | ok recipients =>
      rw [Option.map_some, Option.getD_some, hvalue]
      exact recipientsValue_ne_nil hvalue

theorem isSome_sidecar (cv : Conversion) :
    ((c.updated cv ext req).strings .sidecarStatsFilename).isSome = true ↔
      (c.strings .sidecarStatsFilename).isSome = true ∨
        req.has "sidecar_stats_filename" = true := by
  rw [Config.updated, SettingsRequest.has]
  dsimp only [TopField.postKey]
  rw [Option.isSome_or, Bool.or_eq_true, or_comm]

/-- The recipients of a request have alarm types that are known. -/
theorem typesValid_updatedRecipients (cv : Conversion) {a : ConfigAlarms}
    (h : ∀ r ∈ a.recipients, Config.typesValid r.alarmTypes = true) :
    ∀ r ∈ (updatedAlarms cv ext req a).recipients, Config.typesValid r.alarmTypes = true := by
  rw [updatedAlarms]
  dsimp only
  cases req.get "alarms.recipients.set" with
  | none => exact h
  | some v => exact typesValid_of_recipientsValue

theorem typesValid_updatedMountpoints (cv : Conversion) {a : ConfigAlarms}
    (h : ∀ m ∈ a.mountpoints, Config.typesValid m.alarmTypes = true) :
    ∀ m ∈ (updatedAlarms cv ext req a).mountpoints, Config.typesValid m.alarmTypes = true := by
  rw [updatedAlarms]
  dsimp only
  cases req.get "alarms.mountpoints.set" with
  | none => exact h
  | some v => exact typesValid_of_mountpointsValue

/-- What is written is accepted if the structure is: the fields that get lost are not looked at. -/
theorem accepted_saved {c : Config} : c.saved.Accepted ↔ c.Accepted := by
  have hok (alarms : ConfigAlarms) : c.saved.AlarmsOk alarms ↔ c.AlarmsOk alarms := by
    constructor
    · rintro ⟨hsmtp, hlow, hrecipients, hmountpoints⟩
      exact ⟨hsmtp, hlow, hrecipients, hmountpoints⟩
    · rintro ⟨hsmtp, hlow, hrecipients, hmountpoints⟩
      exact ⟨hsmtp, hlow, hrecipients, hmountpoints⟩
  have hrequired : c.saved.Required ↔ c.Required := by
    constructor
    · rintro ⟨hstrings, hhost, hrecipients⟩
      exact ⟨hstrings, hhost, hrecipients⟩
    · rintro ⟨hstrings, hhost, hrecipients⟩
      exact ⟨hstrings, hhost, hrecipients⟩
  rw [Config.accepted_iff, Config.accepted_iff, hrequired]
  refine and_congr_right fun _ => and_congr_right fun _ => ?_
  exact forall₂_congr fun alarms _ => hok alarms

theorem alarms_updated {cv : Conversion} {alarms : ConfigAlarms}
    (h : (c.updated cv ext req).alarms = some alarms) :
    (c.alarms.isSome || req.asks alarmsKeys) = true ∧
      alarms = updatedAlarms cv ext req c.ensureAlarms := by
  rw [Config.updated] at h
  obtain ⟨hsection, h⟩ := Option.ite_none_right_eq_some.mp h
  exact ⟨hsection, (Option.some.inj h).symm⟩

/-- The data that the schema requires, with the settings of a request. -/
theorem required_updated_iff (hvalid : SettingsValid ext req) (cv : Conversion)
    (hc : c.Required) : (c.updated cv ext req).Required ↔
      (c.alarms = none → req.asks alarmsKeys = true → req.has "alarms.smtp.host" = true) ∧
        (c.alarms = none → req.asks alarmsKeys = true →
          req.has "alarms.recipients.set" = true) := by
  obtain ⟨hstrings, hhost, hrecipients⟩ := hc
  constructor
  · rintro ⟨-, hhost', hrecipients'⟩
    have hmade (hasks : req.asks alarmsKeys = true) : (c.updated cv ext req).alarms =
        some (updatedAlarms cv ext req c.ensureAlarms) := by
      rw [Config.updated, hasks, Bool.or_true, if_pos rfl]
    refine ⟨fun hnone hasks => ?_, fun hnone hasks => ?_⟩
    · have hhost := (isSome_updatedHost cv _).mp (hhost' _ (hmade hasks))
      rw [Config.ensureAlarms, hnone] at hhost
      exact hhost.resolve_left Bool.false_ne_true
    · have hne := (updatedRecipients_ne_nil hvalid cv _).mp (hrecipients' _ (hmade hasks))
      rw [Config.ensureAlarms, hnone] at hne
      exact hne.resolve_left fun h => h rfl
  · rintro ⟨hnewHost, hnewRecipients⟩
    refine ⟨fun f hf => ?_, fun alarms halarms => ?_, fun alarms halarms => ?_⟩
    · rw [Config.updated]
      dsimp only
      rw [Option.isSome_or, hstrings f hf, Bool.or_true]
    · obtain ⟨hsection, rfl⟩ := alarms_updated halarms
      rw [isSome_updatedHost, Config.ensureAlarms]
      cases hcase : c.alarms with
      | none =>
        rw [hcase] at hsection
        exact .inr (hnewHost hcase hsection)
      | some a => exact .inl (hhost a hcase)
    · obtain ⟨hsection, rfl⟩ := alarms_updated halarms
      rw [updatedRecipients_ne_nil hvalid, Config.ensureAlarms]
      cases hcase : c.alarms with
      | none =>
        rw [hcase] at hsection
        exact .inr (hnewRecipients hcase hsection)
      | some a => exact .inl (hrecipients a hcase)

/-- **The settings that keep a configuration acceptable.** -/
theorem accepted_updated_iff (hvalid : SettingsValid ext req) (cv : Conversion) (hc : c.Accepted) :
    (c.updated cv ext req).Accepted ↔ SettingsConsistent req c := by
  obtain ⟨hrequired, hproxies, halarms⟩ := Config.accepted_iff.mp hc
  rw [Config.accepted_iff, required_updated_iff hvalid cv hrequired]
  constructor
  · rintro ⟨⟨hhost, hrecipients⟩, -, hok⟩
    refine ⟨hhost, hrecipients, fun hlow => ?_⟩
    have hmade : (c.updated cv ext req).alarms =
        some (updatedAlarms cv ext req c.ensureAlarms) := by
      rw [Config.updated, asks_alarmsKeys_of_asksLowSv hlow, Bool.or_true, if_pos rfl]
    have hsidecar := (hok _ hmade).lowSvCount ((isSome_updatedLowSv cv _).mpr (.inl hlow))
    exact (isSome_sidecar cv).mp hsidecar
  · rintro ⟨hhost, hrecipients, hlow⟩
    refine ⟨⟨hhost, hrecipients⟩, hproxies, fun alarms' halarms' => ?_⟩
    have hmade := (((required_updated_iff hvalid cv hrequired).mpr ⟨hhost, hrecipients⟩).host _
      halarms')
    obtain ⟨-, rfl⟩ := alarms_updated halarms'
    -- The section that is there already is in order, and a new one is empty.
    have hbase : (c.ensureAlarms.lowSvCount.isSome = true →
          (c.strings .sidecarStatsFilename).isSome = true) ∧
        (∀ r ∈ c.ensureAlarms.recipients, Config.typesValid r.alarmTypes = true) ∧
        ∀ m ∈ c.ensureAlarms.mountpoints, Config.typesValid m.alarmTypes = true := by
      rw [Config.ensureAlarms]
      cases hcase : c.alarms with
      | none =>
        exact ⟨fun h => absurd h Bool.false_ne_true,
          fun r hr => absurd hr List.not_mem_nil, fun m hm => absurd hm List.not_mem_nil⟩
      | some a =>
        obtain ⟨-, hlow, hrecipients, hmountpoints⟩ := halarms a hcase
        exact ⟨hlow, hrecipients, hmountpoints⟩
    obtain ⟨hbaseLow, hbaseRecipients, hbaseMountpoints⟩ := hbase
    refine ⟨?_, fun hsome => ?_, typesValid_updatedRecipients cv hbaseRecipients,
      typesValid_updatedMountpoints cv hbaseMountpoints⟩
    · cases hsmtp : (updatedAlarms cv ext req c.ensureAlarms).smtp with
      | none =>
        rw [hsmtp] at hmade
        contradiction
      | some smtp => rfl
    · refine (isSome_sidecar cv).mpr ?_
      rcases (isSome_updatedLowSv cv _).mp hsome with hasks | ⟨hold, -⟩
      · exact hlow hasks
      · exact .inl (hbaseLow hold)

/-- **The file that is written is accepted exactly if the settings go together.** -/
theorem accepted_saved_iff {env : SettingsEnv} (henv : env.Faithful) {live : SettingsState}
    {configFile : List Byte} (hload : env.load configFile = some c) (hc : c.Accepted)
    (hsaved : (apiSettingsSetJson env live configFile req).saved = true) :
    (∃ c', env.load (apiSettingsSetJson env live configFile req).configFile = some c' ∧
      c'.Accepted) ↔ SettingsConsistent req c := by
  obtain ⟨c', hload', hvalid, hsave, hfile⟩ := exists_load_of_saved hsaved
  obtain rfl := Option.some.inj (hload.symm.trans hload')
  rw [hfile, henv.load_save _ _ hsave, ← accepted_updated_iff hvalid .code hc]
  constructor
  · rintro ⟨c', hc', haccepted⟩
    obtain rfl := Option.some.inj hc'
    exact accepted_saved.mp haccepted
  · intro haccepted
    exact ⟨_, rfl, accepted_saved.mpr haccepted⟩

/-! ### A configuration file -/

/-- A field at the top is the same in two configurations. -/
def TopField.Same (c c' : Config) : TopField → Prop
  | string f => c.strings f = c'.strings f
  | int f => c.ints f = c'.ints f
  | size f => c.sizes f = c'.sizes f
  | float f => c.floats f = c'.floats f

instance TopField.instDecidableSame (c c' : Config) : DecidablePred (TopField.Same c c')
  | string f => inferInstanceAs (Decidable (c.strings f = c'.strings f))
  | int f => inferInstanceAs (Decidable (c.ints f = c'.ints f))
  | size f => inferInstanceAs (Decidable (c.sizes f = c'.sizes f))
  | float f => inferInstanceAs (Decidable (c.floats f = c'.floats f))

theorem Config.same_iff {c c' : Config} : ((∀ field ∈ topFields, field.Same c c') ∧
    c.logLevel = c'.logLevel ∧ c.trustedHttpProxy = c'.trustedHttpProxy ∧
      c.alarms = c'.alarms) ↔ c = c' := by
  constructor
  · rintro ⟨hfields, hlevel, hproxies, halarms⟩
    refine Config.ext ?_ ?_ ?_ ?_ hlevel hproxies halarms
    · funext f
      exact hfields (.string f) (mem_topFields _)
    · funext f
      exact hfields (.int f) (mem_topFields _)
    · funext f
      exact hfields (.size f) (mem_topFields _)
    · funext f
      exact hfields (.float f) (mem_topFields _)
  · rintro rfl
    refine ⟨fun field _ => ?_, rfl, rfl, rfl⟩
    cases field <;> rfl

instance Config.instDecidableEq : DecidableEq Config :=
  fun _ _ => decidable_of_iff _ Config.same_iff

theorem Config.saved_saved (c : Config) : c.saved.saved = c.saved := by
  refine Config.ext rfl ?_ rfl ?_ rfl rfl rfl
  · funext f
    by_cases hf : f ∈ IntField.unlisted
    · exact (if_pos hf).trans (if_pos hf).symm
    · exact if_neg hf
  · funext f
    by_cases hf : f ∈ FloatField.unlisted
    · exact (if_pos hf).trans (if_pos hf).symm
    · exact if_neg hf

/-- The system, as far as one edit of the configuration file needs it. The file that is there has
the structure `c`; the text `written` comes from the structure `edit`, and nothing else can be
written. -/
def oneEdit (content written : List Byte) (c edit : Config) : SettingsEnv where
  appendable := fun _ => true
  rewritable := fun _ => true
  strtod := fun _ => none
  tokenerParse := fun _ => .null
  text := fun _ => []
  load := fun text =>
    if text = written then some edit.saved else if text = content then some c.saved else none
  save := fun e old => if e.saved = edit.saved then (written, true) else (old, false)
  reload := fun _ _ => 0

theorem faithful_oneEdit (content written : List Byte) (c edit : Config) :
    (oneEdit content written c edit).Faithful where
  load_save e old h := by
    rw [oneEdit] at h ⊢
    dsimp only at h ⊢
    split at h
    · next hsame => rw [if_pos hsame, if_pos rfl, hsame]
    · contradiction
  load text config h := by
    rw [oneEdit] at h
    dsimp only at h
    split at h
    · obtain rfl := Option.some.inj h
      exact edit.saved_saved
    · split at h
      · obtain rfl := Option.some.inj h
        exact c.saved_saved
      · contradiction

theorem oneEdit_load {content written : List Byte} (h : content ≠ written) (c edit : Config) :
    (oneEdit content written c edit).load content = some c.saved :=
  (if_neg h).trans (if_pos rfl)

theorem oneEdit_save (content written : List Byte) (c edit : Config) (old : List Byte) :
    (oneEdit content written c edit).save edit old = (written, true) := if_pos rfl

/-- A text of lines. -/
def unlines (l : List String) : List Byte := l.flatMap fun line => cstr line ++ [LF]

/-- A configuration file with a section of alarms. -/
def alarmsFile : List Byte :=
  unlines ["listen:", "- ip: 0.0.0.0", "source_auth_file: source.auth",
    "host_auth_file: host.auth", "sourcetable_file: sourcetable.dat", "access_log: access.log",
    "log: caster.log", "log_level: INFO", "alarms:", "  smtp:", "    host: mail", "    tls: none",
    "  recipients:", "  - email: root@localhost"]

/-- The file with the alarm about satellites, without the fields that are zero. -/
def lowSvFile : List Byte := alarmsFile ++ unlines ["  low_sv_count:", "    min_sats: 0"]

/-- What cyaml makes of it. -/
def alarmsConfig : Config where
  strings
    | .sourceAuthFilename => some (cstr "source.auth")
    | .hostAuthFilename => some (cstr "host.auth")
    | .sourcetableFilename => some (cstr "sourcetable.dat")
    | .accessLog => some (cstr "access.log")
    | .log => some (cstr "caster.log")
    | _ => none
  ints _ := 0
  sizes _ := 0
  floats _ := 0
  logLevel := 6
  trustedHttpProxy := []
  alarms := some
    { ConfigAlarms.zero with
      smtp := some ⟨some (cstr "mail"), 0, .none, none⟩
      recipients := [⟨none, cstr "root@localhost", none⟩] }

theorem accepted_alarmsConfig : alarmsConfig.Accepted := by
  refine Config.accepted_iff.mpr ⟨⟨by decide, ?_, ?_⟩, by decide, ?_⟩
  · rintro alarms h
    obtain rfl := Option.some.inj h
    rfl
  · rintro alarms h
    obtain rfl := Option.some.inj h
    exact List.cons_ne_nil _ _
  · rintro alarms h
    obtain rfl := Option.some.inj h
    exact ⟨rfl, fun h => absurd h Bool.false_ne_true, by decide, by decide⟩

/-- A request that turns the alarm about satellites on. -/
def lowSvRequest : SettingsRequest :=
  .ofList [(cstr "alarms.low_sv_count.enable", cstr "1")] (by decide)

/-- The same with the file that the alarm needs. -/
def lowSvSidecarRequest : SettingsRequest :=
  .ofList [(cstr "alarms.low_sv_count.enable", cstr "1"),
    (cstr "sidecar_stats_filename", cstr "stats.json")] (by decide)

/-- The system during a request that edits the file. -/
def alarmsEnv (written : List Byte) (req : SettingsRequest) : SettingsEnv :=
  oneEdit alarmsFile written alarmsConfig (alarmsConfig.saved.updated .code
    ⟨fun _ => none, fun _ => .null, fun _ => []⟩ req)

/-- A caster without files of accounts. -/
def alarmsState : SettingsState where
  config := alarmsConfig.withDefaults
  sourceAuth := none
  roverAuth := none
  userAuth := none
  files := fun _ => none
  sidecarStats := .null
  executable := fun _ => false

theorem faithful_alarmsEnv (written : List Byte) (req : SettingsRequest) :
    (alarmsEnv written req).Faithful := faithful_oneEdit _ _ _ _

theorem alarmsEnv_load {written : List Byte} (hne : alarmsFile ≠ written) (req : SettingsRequest) :
    (alarmsEnv written req).load alarmsFile = some alarmsConfig.saved := oneEdit_load hne _ _

theorem saved_alarmsEnv {written : List Byte} (hne : alarmsFile ≠ written)
    (hsteps : accountSteps alarmsState req = [])
    (hvalid : SettingsValid (alarmsEnv written req).toSettingsText req)
    (hchanged : (edited (alarmsEnv written req) req alarmsConfig.saved).2 = true) :
    (apiSettingsSetJson (alarmsEnv written req) alarmsState alarmsFile req).saved = true := by
  have haccepted : AccountsAccepted (alarmsEnv written req) alarmsState req := by
    rw [AccountsAccepted, hsteps]
    exact trivial
  have hsave : ((alarmsEnv written req).save (alarmsConfig.saved.updated .code
      (alarmsEnv written req).toSettingsText req) alarmsFile).2 = true :=
    congrArg Prod.snd (oneEdit_save alarmsFile written alarmsConfig _ alarmsFile)
  rw [apiSettingsSetJson_of_saved haccepted (alarmsEnv_load hne req) hvalid hchanged hsave]

theorem alarmsFile_ne_lowSvFile : alarmsFile ≠ lowSvFile := by decide +kernel

/-- What becomes of the two requests, in one computation. -/
theorem computed_lowSv :
    ((∀ e ∈ settingsEdits (alarmsEnv lowSvFile lowSvSidecarRequest).toSettingsText
        lowSvSidecarRequest, e.refusal = none) ∧
      (edited (alarmsEnv lowSvFile lowSvSidecarRequest) lowSvSidecarRequest
        alarmsConfig.saved).2 = true ∧
      accountSteps alarmsState lowSvSidecarRequest = []) ∧
    (∀ e ∈ settingsEdits (alarmsEnv lowSvFile lowSvRequest).toSettingsText lowSvRequest,
        e.refusal = none) ∧
      (edited (alarmsEnv lowSvFile lowSvRequest) lowSvRequest alarmsConfig.saved).2 = true ∧
      accountSteps alarmsState lowSvRequest = [] := by
  decide +kernel

theorem settingsValid_lowSvSidecar : SettingsValid
    (alarmsEnv lowSvFile lowSvSidecarRequest).toSettingsText lowSvSidecarRequest :=
  computed_lowSv.1.1

theorem edited_lowSvSidecar : (edited (alarmsEnv lowSvFile lowSvSidecarRequest) lowSvSidecarRequest
    alarmsConfig.saved).2 = true :=
  computed_lowSv.1.2.1

theorem accountSteps_lowSvSidecar : accountSteps alarmsState lowSvSidecarRequest = [] :=
  computed_lowSv.1.2.2

/-- The alarm is turned on, and the file that it needs is set. -/
theorem accepted_saved_lowSvSidecar :
    ∃ c', (alarmsEnv lowSvFile lowSvSidecarRequest).load
        (apiSettingsSetJson (alarmsEnv lowSvFile lowSvSidecarRequest) alarmsState alarmsFile
          lowSvSidecarRequest).configFile = some c' ∧ c'.Accepted := by
  have hsaved := saved_alarmsEnv alarmsFile_ne_lowSvFile accountSteps_lowSvSidecar
    settingsValid_lowSvSidecar edited_lowSvSidecar
  exact (accepted_saved_iff (faithful_alarmsEnv _ _) (alarmsEnv_load alarmsFile_ne_lowSvFile _)
    (accepted_saved.mpr accepted_alarmsConfig) hsaved).mpr
    ⟨fun hnone => absurd hnone (Option.some_ne_none _),
      fun hnone => absurd hnone (Option.some_ne_none _), fun _ => .inr (by decide +kernel)⟩

/-- **A file that is written and not accepted.** The alarm is turned on without the file that it
needs. -/
theorem not_accepted_saved_lowSv :
    ∃ (env : SettingsEnv) (live : SettingsState) (configFile : List Byte) (req : SettingsRequest)
      (c : Config), env.Faithful ∧ env.load configFile = some c ∧ c.Accepted ∧
        (apiSettingsSetJson env live configFile req).saved = true ∧
        ¬ ∃ c', env.load (apiSettingsSetJson env live configFile req).configFile = some c' ∧
          c'.Accepted := by
  have hload := alarmsEnv_load alarmsFile_ne_lowSvFile lowSvRequest
  obtain ⟨hvalid, hedited, hsteps⟩ := computed_lowSv.2
  have hsaved := saved_alarmsEnv alarmsFile_ne_lowSvFile hsteps hvalid hedited
  have haccepted := accepted_saved.mpr accepted_alarmsConfig
  refine ⟨alarmsEnv lowSvFile lowSvRequest, alarmsState, alarmsFile, lowSvRequest, _,
    faithful_alarmsEnv _ _, hload, haccepted, hsaved, ?_⟩
  rintro ⟨c', hc', hok⟩
  obtain ⟨c, hload', -, hsave, hfile⟩ := exists_load_of_saved hsaved
  obtain rfl := Option.some.inj (hload.symm.trans hload')
  rw [hfile, (faithful_alarmsEnv _ _).load_save _ _ hsave] at hc'
  obtain rfl := Option.some.inj hc'
  have hconsistent := (accepted_updated_iff hvalid .code haccepted).mp (accepted_saved.mp hok)
  exact absurd (hconsistent.lowSv (.inr (by decide +kernel))) (by decide +kernel)

end ChilopodCaster
