import ChilopodCaster.Config
import ChilopodCaster.JsonText

/-!
# The settings in a reply

`GET /api/v1/settings` answers with the configuration in force and with the accounts: those of
rovers and of the console as they were loaded, and those of mail servers as they stand in their
file. Comments in the source call passwords write-only, never echoed back. Each account is listed
with its password.

What flows is therefore exact: of two states that differ only in passwords, the replies are the same
if and only if the passwords listed are.

## Main definitions

* `SettingsState.apiSettingsGetJson` — `api_settings_get_json`
* `SettingsState.getSettings` — the answer to a caller
* `SameButPasswords` — two states that differ only in passwords

## Main results

* `SettingsState.getSettings_eq_iff` — when their answers are the same
-/

namespace ChilopodCaster

/-- What the settings reply is made from. -/
structure SettingsState where
  /-- the configuration in force -/
  config : Config
  sourceAuth : Option (List AuthEntry)
  roverAuth : Option (List RoverAuthEntry)
  userAuth : Option (List UserAuthEntry)
  files : Files
  /-- what `sidecar_stats_json` returns -/
  sidecarStats : Json
  /-- `access(path, X_OK)` returns 0 -/
  executable : CString → Bool

namespace SettingsState

/-! ### The reply -/

/-- A string, or null. -/
def nullable (s : Option CString) : Json := (s.map Json.string).getD .null

/-- The fields of an object, with their names from the source. -/
def named (l : List (String × Json)) : List (CString × Json) := l.map fun f => (cstr f.1, f.2)

def object (l : List (String × Json)) : Json := .object (named l)

/-- The fields of the configuration that are numbers and strings. `admin_user`,
`source_auth_filename` and `sourcetable_filename` are never `NULL`. -/
def scalarFields (config : Config) : List (String × Json) :=
  let text (f : StringField) : Json := .string ((config.strings f).getD [])
  let size (f : SizeField) : Json := .int (config.sizes f)
  let int (f : IntField) : Json := .int (config.ints f)
  let float (f : FloatField) : Json := .double (config.floats f)
  [("log_level", .string ((logLevelName config.logLevel).getD (cstr "UNKNOWN"))),
    ("hysteresis_m", float .hysteresisM),
    ("max_nearest_lookup_distance_m", float .maxNearestLookupDistanceM),
    ("backlog_socket", size .backlogSocket),
    ("backlog_evbuffer", size .backlogEvbuffer),
    ("admin_user", text .adminUser),
    ("idle_max_delay", int .idleMaxDelay),
    ("reconnect_delay", int .reconnectDelay),
    ("min_raw_packet", int .minRawPacket),
    ("max_raw_packet", int .maxRawPacket),
    ("http_header_max_size", size .httpHeaderMaxSize),
    ("http_content_length_max", size .httpContentLengthMax),
    ("sourcetable_priority", int .sourcetablePriority),
    ("on_demand_source_timeout", int .onDemandSourceTimeout),
    ("nearest_base_count_target", int .nearestBaseCountTarget),
    ("min_nearest_recompute_interval", int .minNearestRecomputeInterval),
    ("max_nearest_recompute_interval", int .maxNearestRecomputeInterval),
    ("min_nearest_recompute_pos_delta", float .minNearestRecomputePosDelta),
    ("source_read_timeout", int .sourceReadTimeout),
    ("ntripcli_default_read_timeout", int .ntripcliDefaultReadTimeout),
    ("ntripcli_default_write_timeout", int .ntripcliDefaultWriteTimeout),
    ("ntripsrv_default_read_timeout", int .ntripsrvDefaultReadTimeout),
    ("ntripsrv_default_write_timeout", int .ntripsrvDefaultWriteTimeout),
    ("trusted_http_ip_header", nullable (config.strings .trustedHttpIpHeader)),
    ("host_auth_filename", nullable (config.strings .hostAuthFilename)),
    ("source_auth_filename", text .sourceAuthFilename),
    ("blocklist_filename", nullable (config.strings .blocklistFilename)),
    ("sourcetable_filename", text .sourcetableFilename),
    ("access_log", nullable (config.strings .accessLog)),
    ("log", nullable (config.strings .log)),
    ("ui_dir", nullable (config.strings .uiDir))]

/-- `sidecar_ready`: the document has mountpoints. -/
def sidecarReady (this : SettingsState) : Bool :=
  (this.config.strings .sidecarStatsFilename).isSome &&
    match this.sidecarStats.objectGet (cstr "mountpoints") with
    | .object mountpoints => mountpoints ≠ []
    | _ => false

def sidecarJson (this : SettingsState) : Json :=
  object [("configured", .boolean (this.config.strings .sidecarStatsFilename).isSome),
    ("ready", .boolean this.sidecarReady),
    ("path", nullable (this.config.strings .sidecarStatsFilename))]

def ruckusJson (this : SettingsState) : Json :=
  let ruckusPath := this.config.alarms.bind ConfigAlarms.ruckusPath
  object [("configured", .boolean this.config.alarms.isSome),
    ("ready", .boolean ((ruckusPath.map this.executable).getD false)),
    ("path", nullable ruckusPath)]

/-- The name of `enum config_alarms_tls`. -/
def tlsName : AlarmsTls → CString
  | .starttls => cstr "starttls"
  | .smtps => cstr "smtps"
  | .none => cstr "none"

def credentialJson (e : AuthEntry) : Json :=
  object [("host", .string e.key), ("user", .string e.user), ("password", .string e.password)]

def smtpJson (smtp : ConfigAlarmsSmtp) (credentials : List AuthEntry) : Json :=
  object [("host", nullable smtp.host), ("port", .int smtp.port.toNat),
    ("tls", .string (tlsName smtp.tls)), ("auth_file", nullable smtp.authFile),
    ("credentials", .array (credentials.map credentialJson))]

/-- A list of alarm types. -/
def typesJson (types : List CString) : Json := .array (types.map .string)

def recipientJson (r : ConfigAlarmsRecipient) : Json :=
  object [("name", nullable r.name), ("email", .string r.email),
    ("alarm_types", (r.alarmTypes.map typesJson).getD .null)]

def mountpointJson (m : ConfigAlarmsMountpoint) : Json :=
  object [("mountpoint", .string m.mountpoint), ("alarm_types", typesJson (m.alarmTypes.getD []))]

def thresholdJson (afterMinutes : ℤ) : Json := object [("after_minutes", .int afterMinutes)]

def lowSvJson (t : ConfigAlarmsLowSv) : Json :=
  object [("min_sats", .int t.minSats), ("after_minutes", .int t.afterMinutes)]

def positionDriftJson (t : ConfigAlarmsPositionDrift) : Json :=
  object [("lat_mm", .int t.latMm), ("lon_mm", .int t.lonMm), ("alt_mm", .int t.altMm),
    ("after_minutes", .int t.afterMinutes)]

def alarmsJson (a : ConfigAlarms) (credentials : List AuthEntry) : Json :=
  object [("subject", nullable a.subject), ("min_interval_minutes", .int a.minIntervalMinutes),
    ("ruckus_path", nullable a.ruckusPath), ("email_template", nullable a.emailTemplate),
    ("smtp", (a.smtp.map fun smtp => smtpJson smtp credentials).getD .null),
    ("recipients", .array (a.recipients.map recipientJson)),
    ("mountpoints", .array (a.mountpoints.map mountpointJson)),
    ("station_offline", (a.stationOffline.map thresholdJson).getD .null),
    ("station_online", (a.stationOnline.map thresholdJson).getD .null),
    ("low_sv_count", (a.lowSvCount.map lowSvJson).getD .null),
    ("position_drift", (a.positionDrift.map positionDriftJson).getD .null)]

def roverAccountJson (e : RoverAuthEntry) : Json :=
  object [("user", .string e.user), ("password", .string e.password),
    ("enabled", .boolean e.enabled)]

def userAccountJson (e : UserAuthEntry) : Json :=
  object [("user", .string e.user), ("password", .string e.password), ("role", .string e.role),
    ("enabled", .boolean e.enabled)]

/-- The accounts in a file, as the source lists them. -/
def accountsJson (filename : Option CString) (accounts : List Json) : Json :=
  object [("configured", .boolean filename.isSome), ("filename", nullable filename),
    ("accounts", .array accounts)]

/-- The entries of `auth_file`, which is read for each reply. -/
def smtpCredentials (this : SettingsState) : List AuthEntry :=
  ((this.config.smtpAuthFile.bind this.files).bind authParse).getD []

/-- `api_settings_get_json` -/
def apiSettingsGetJson (this : SettingsState) : Json :=
  .object (named (scalarFields this.config) ++ named
    [("sidecar", this.sidecarJson), ("ruckus", this.ruckusJson),
      ("alarms", (this.config.alarms.map fun a => alarmsJson a this.smtpCredentials).getD .null),
      ("rover_auth", accountsJson (this.config.strings .roverAuthFilename)
        ((this.roverAuth.getD []).map roverAccountJson)),
      ("user_auth", accountsJson (this.config.strings .userAuthFilename)
        ((this.userAuth.getD []).map userAccountJson))])

/-- The role of a caller. -/
def role (this : SettingsState) (user password : Option CString) : AdminRole :=
  resolveAdminRole this.sourceAuth ((this.config.strings .adminUser).getD []) this.userAuth user
    password

/-- `GET /api/v1/settings` in `admsrv`: the status, or the body. Every role may read. -/
def getSettings (this : SettingsState) (double : ℚ → CString) (user password : Option CString) :
    Except ℕ CString :=
  if this.role user password = .roleNone then .error 401
  else .ok (this.apiSettingsGetJson.toJsonString double)

end SettingsState

/-! ### States that differ in passwords -/

/-- Two accounts that are the same but for the password. -/
def AuthEntry.SameBut (e e' : AuthEntry) : Prop := { e' with password := e.password } = e

def RoverAuthEntry.SameBut (e e' : RoverAuthEntry) : Prop := { e' with password := e.password } = e

def UserAuthEntry.SameBut (e e' : UserAuthEntry) : Prop := { e' with password := e.password } = e

/-- Two lists of accounts, or two failures to read one. -/
abbrev SameAccounts {α : Type} (SameBut : α → α → Prop) (l l' : Option (List α)) : Prop :=
  Option.Rel (List.Forall₂ SameBut) l l'

/-- Accounts that are the same but for the passwords are the same if the passwords are. -/
theorem eq_of_map_password {α : Type} {SameBut : α → α → Prop} {password : α → CString}
    (hsame : ∀ {e e' : α}, SameBut e e' → password e = password e' → e = e') {l l' : List α}
    (h : List.Forall₂ SameBut l l') (hpasswords : l.map password = l'.map password) : l = l' := by
  induction h with
  | nil => rfl
  | cons he _ ih =>
    rw [List.map_cons, List.map_cons] at hpasswords
    obtain ⟨hpassword, hrest⟩ := List.cons.inj hpasswords
    rw [hsame he hpassword, ih hrest]

theorem AuthEntry.eq_of_sameBut {e e' : AuthEntry} (h : e.SameBut e')
    (hpassword : e.password = e'.password) : e = e' := by
  rw [← h, hpassword]

theorem RoverAuthEntry.eq_of_sameBut {e e' : RoverAuthEntry} (h : e.SameBut e')
    (hpassword : e.password = e'.password) : e = e' := by
  rw [← h, hpassword]

theorem UserAuthEntry.eq_of_sameBut {e e' : UserAuthEntry} (h : e.SameBut e')
    (hpassword : e.password = e'.password) : e = e' := by
  rw [← h, hpassword]

theorem forall₂_of_sameAccounts {α : Type} {SameBut : α → α → Prop} {l l' : Option (List α)}
    (h : SameAccounts SameBut l l') : List.Forall₂ SameBut (l.getD []) (l'.getD []) := by
  cases h with
  | some h => exact h
  | none => exact .nil

/-- Two states that differ only in the passwords of the accounts of rovers, of the console and of
mail servers, in the files and as they were loaded from them. -/
structure SameButPasswords (s s' : SettingsState) : Prop where
  config : s.config = s'.config
  sourceAuth : s.sourceAuth = s'.sourceAuth
  sidecarStats : s.sidecarStats = s'.sidecarStats
  executable : s.executable = s'.executable
  roverAuth : SameAccounts RoverAuthEntry.SameBut s.roverAuth s'.roverAuth
  userAuth : SameAccounts UserAuthEntry.SameBut s.userAuth s'.userAuth
  roverFile : ∀ name, s.config.strings .roverAuthFilename = some name →
    SameAccounts RoverAuthEntry.SameBut ((s.files name).bind roverAuthParse)
      ((s'.files name).bind roverAuthParse)
  userFile : ∀ name, s.config.strings .userAuthFilename = some name →
    SameAccounts UserAuthEntry.SameBut ((s.files name).bind userAuthParse)
      ((s'.files name).bind userAuthParse)
  smtpFile : ∀ name, s.config.smtpAuthFile = some name →
    SameAccounts AuthEntry.SameBut ((s.files name).bind authParse) ((s'.files name).bind authParse)
  files : ∀ name, s.config.strings .roverAuthFilename ≠ some name →
    s.config.strings .userAuthFilename ≠ some name → s.config.smtpAuthFile ≠ some name →
    s.files name = s'.files name

namespace SettingsState

/-- The passwords of the accounts that are listed: of the rover and console accounts in force, and
of the accounts of mail servers in their file. -/
def listedPasswords (this : SettingsState) : List CString × List CString × List CString :=
  ((this.roverAuth.getD []).map RoverAuthEntry.password,
    (this.userAuth.getD []).map UserAuthEntry.password,
    this.smtpCredentials.map AuthEntry.password)

variable {s s' : SettingsState}

theorem forall₂_smtpCredentials (h : SameButPasswords s s') :
    List.Forall₂ AuthEntry.SameBut s.smtpCredentials s'.smtpCredentials := by
  rw [smtpCredentials, smtpCredentials, ← h.config]
  cases hfile : s.config.smtpAuthFile with
  | none => exact .nil
  | some name => exact forall₂_of_sameAccounts (h.smtpFile name hfile)

/-! ### What the reply shows -/

theorem alike_getD_map {α : Type} (f f' : α → Json) (hf : ∀ a, Json.Alike (f a) (f' a))
    (x : Option α) : Json.Alike ((x.map f).getD .null) ((x.map f').getD .null) := by
  cases x with
  | none => exact .refl _
  | some a => exact hf a

theorem alike_accountsJson (filename : Option CString) {accounts accounts' : List Json}
    (h : Json.AlikeList accounts accounts') :
    Json.Alike (accountsJson filename accounts) (accountsJson filename accounts') :=
  .object (.cons _ (.refl _) (.cons _ (.refl _) (.cons _ (.array h) .nil)))

theorem alike_credentialJson {e e' : AuthEntry} (h : e.SameBut e') :
    Json.Alike (credentialJson e) (credentialJson e') := by
  rw [← h]
  exact .object (.cons _ (.refl _) (.cons _ (.refl _) (.cons _ (.string _ _) .nil)))

theorem alike_roverAccountJson {e e' : RoverAuthEntry} (h : e.SameBut e') :
    Json.Alike (roverAccountJson e) (roverAccountJson e') := by
  rw [← h]
  exact .object (.cons _ (.refl _) (.cons _ (.string _ _) (.cons _ (.refl _) .nil)))

theorem alike_userAccountJson {e e' : UserAuthEntry} (h : e.SameBut e') :
    Json.Alike (userAccountJson e) (userAccountJson e') := by
  rw [← h]
  exact .object (.cons _ (.refl _) (.cons _ (.string _ _) (.cons _ (.refl _)
    (.cons _ (.refl _) .nil))))

theorem alike_alarmsJson (a : ConfigAlarms) {credentials credentials' : List AuthEntry}
    (h : List.Forall₂ AuthEntry.SameBut credentials credentials') :
    Json.Alike (alarmsJson a credentials) (alarmsJson a credentials') := by
  have hsmtp (smtp : ConfigAlarmsSmtp) :
      Json.Alike (smtpJson smtp credentials) (smtpJson smtp credentials') :=
    .object (Json.AlikeFields.append_left (named [("host", nullable smtp.host),
      ("port", .int smtp.port.toNat), ("tls", .string (tlsName smtp.tls)),
      ("auth_file", nullable smtp.authFile)])
      (.cons _
        (.array (Json.AlikeList.map credentialJson (fun _ _ => alike_credentialJson) h)) .nil))
  refine .object (Json.AlikeFields.append_left (named [("subject", nullable a.subject),
    ("min_interval_minutes", .int a.minIntervalMinutes), ("ruckus_path", nullable a.ruckusPath),
    ("email_template", nullable a.emailTemplate)]) (.cons _ ?_ (.refl _)))
  exact alike_getD_map _ _ hsmtp a.smtp

/-- The replies of two such states differ in strings only. -/
theorem alike_apiSettingsGetJson (h : SameButPasswords s s') :
    Json.Alike s.apiSettingsGetJson s'.apiSettingsGetJson := by
  have hready : s.sidecarReady = s'.sidecarReady := by
    rw [sidecarReady, sidecarReady, h.config, h.sidecarStats]
  have hsidecar : s.sidecarJson = s'.sidecarJson := by
    rw [sidecarJson, sidecarJson, hready, h.config]
  have hruckus : s.ruckusJson = s'.ruckusJson := by
    rw [ruckusJson, ruckusJson, h.config, h.executable]
  rw [apiSettingsGetJson, apiSettingsGetJson, hsidecar, hruckus, h.config]
  refine .object (Json.AlikeFields.append_left _ (.cons _ (.refl _) (.cons _ (.refl _)
    (.cons _ ?_ (.cons _ ?_ (.cons _ ?_ .nil))))))
  · exact alike_getD_map _ _ (fun a => alike_alarmsJson a (forall₂_smtpCredentials h)) _
  · exact alike_accountsJson _
      (Json.AlikeList.map roverAccountJson (fun _ _ => alike_roverAccountJson)
        (forall₂_of_sameAccounts h.roverAuth))
  · exact alike_accountsJson _
      (Json.AlikeList.map userAccountJson (fun _ _ => alike_userAccountJson)
        (forall₂_of_sameAccounts h.userAuth))

/-- The same passwords in the lists are the same lists. -/
theorem apiSettingsGetJson_eq_of_listedPasswords (h : SameButPasswords s s')
    (hpasswords : s.listedPasswords = s'.listedPasswords) :
    s.apiSettingsGetJson = s'.apiSettingsGetJson := by
  obtain ⟨hrover, hrest⟩ := Prod.mk.inj hpasswords
  obtain ⟨huser, hsmtp⟩ := Prod.mk.inj hrest
  have hready : s.sidecarReady = s'.sidecarReady := by
    rw [sidecarReady, sidecarReady, h.config, h.sidecarStats]
  rw [apiSettingsGetJson, apiSettingsGetJson, sidecarJson, sidecarJson, ruckusJson, ruckusJson,
    hready, h.config, h.executable,
    eq_of_map_password RoverAuthEntry.eq_of_sameBut (forall₂_of_sameAccounts h.roverAuth) hrover,
    eq_of_map_password UserAuthEntry.eq_of_sameBut (forall₂_of_sameAccounts h.userAuth) huser,
    eq_of_map_password AuthEntry.eq_of_sameBut (forall₂_smtpCredentials h) hsmtp]

/-- The field `password` of an account. -/
def passwordJson (j : Json) : Json := j.objectGet (cstr "password")

theorem passwordJson_roverAccountJson (e : RoverAuthEntry) :
    passwordJson (roverAccountJson e) = .string e.password := by
  have huser : ¬ cstr "user" = cstr "password" := by decide
  simp [passwordJson, roverAccountJson, object, named, Json.objectGet, huser]

theorem passwordJson_userAccountJson (e : UserAuthEntry) :
    passwordJson (userAccountJson e) = .string e.password := by
  have huser : ¬ cstr "user" = cstr "password" := by decide
  simp [passwordJson, userAccountJson, object, named, Json.objectGet, huser]

theorem passwordJson_credentialJson (e : AuthEntry) :
    passwordJson (credentialJson e) = .string e.password := by
  have hhost : ¬ cstr "host" = cstr "password" := by decide
  have huser : ¬ cstr "user" = cstr "password" := by decide
  simp [passwordJson, credentialJson, object, named, Json.objectGet, hhost, huser]

/-- The passwords can be read off the lists. -/
theorem map_password_eq {α : Type} {f : α → Json} (password : α → CString)
    (hf : ∀ e, passwordJson (f e) = .string (password e)) {l l' : List α}
    (h : l.map f = l'.map f) : l.map password = l'.map password := by
  have hread (l : List α) : (l.map f).map passwordJson = (l.map password).map Json.string := by
    rw [List.map_map, List.map_map]
    exact List.map_congr_left fun e _ => hf e
  have hstrings := congrArg (List.map passwordJson) h
  rw [hread, hread] at hstrings
  exact (List.map_injective_iff.mpr fun _ _ => Json.string.inj) hstrings

theorem accountsJson_inj {filename : Option CString} {accounts accounts' : List Json}
    (h : accountsJson filename accounts = accountsJson filename accounts') :
    accounts = accounts' := by
  have hfields := Json.object.inj h
  simp only [named, List.map_cons, List.map_nil, List.cons.injEq, Prod.mk.injEq, true_and,
    and_true] at hfields
  exact Json.array.inj hfields

/-- The accounts of mail servers can be read off the alarms, if there are any. -/
theorem map_credentialJson_of_alarmsJson_eq {a : ConfigAlarms} {smtp : ConfigAlarmsSmtp}
    (hsmtp : a.smtp = some smtp) {credentials credentials' : List AuthEntry}
    (h : alarmsJson a credentials = alarmsJson a credentials') :
    credentials.map credentialJson = credentials'.map credentialJson := by
  have hfields := Json.object.inj h
  simp only [named, List.map_cons, List.map_nil, List.cons.injEq, Prod.mk.injEq, true_and,
    and_true, hsmtp, Option.map_some, Option.getD_some] at hfields
  have hcredentials := Json.object.inj hfields
  simp only [named, List.map_cons, List.map_nil, List.cons.injEq, Prod.mk.injEq, true_and,
    and_true] at hcredentials
  exact Json.array.inj hcredentials

theorem smtpCredentials_of_smtp_eq_none
    (h : s.config.alarms.bind ConfigAlarms.smtp = none) : s.smtpCredentials = [] := by
  have hfile : s.config.smtpAuthFile = none := by
    rw [Config.smtpAuthFile]
    cases halarms : s.config.alarms with
    | none => rfl
    | some a =>
      rw [halarms, Option.bind_some] at h
      rw [Option.bind_some, h, Option.bind_none]
  rw [smtpCredentials, hfile]
  rfl

theorem listedPasswords_of_apiSettingsGetJson_eq (h : SameButPasswords s s')
    (heq : s.apiSettingsGetJson = s'.apiSettingsGetJson) :
    s.listedPasswords = s'.listedPasswords := by
  rw [apiSettingsGetJson, apiSettingsGetJson, h.config] at heq
  have hfields := List.append_cancel_left (Json.object.inj heq)
  simp only [named, List.map_cons, List.map_nil, List.cons.injEq, Prod.mk.injEq, true_and,
    and_true] at hfields
  obtain ⟨-, -, halarms, hrover, huser⟩ := hfields
  have hrovers := map_password_eq RoverAuthEntry.password passwordJson_roverAccountJson
    (accountsJson_inj hrover)
  have husers := map_password_eq UserAuthEntry.password passwordJson_userAccountJson
    (accountsJson_inj huser)
  have hsmtp : s.smtpCredentials.map AuthEntry.password =
      s'.smtpCredentials.map AuthEntry.password := by
    cases hcase : s'.config.alarms.bind ConfigAlarms.smtp with
    | none =>
      rw [smtpCredentials_of_smtp_eq_none hcase,
        smtpCredentials_of_smtp_eq_none (h.config ▸ hcase)]
    | some smtp =>
      obtain ⟨a, ha, hsmtp⟩ := Option.bind_eq_some_iff.mp hcase
      rw [ha, Option.map_some, Option.map_some, Option.getD_some, Option.getD_some] at halarms
      exact map_password_eq AuthEntry.password passwordJson_credentialJson
        (map_credentialJson_of_alarmsJson_eq hsmtp halarms)
  rw [listedPasswords, listedPasswords, hsmtp]
  exact Prod.ext hrovers (Prod.ext husers rfl)

/-! ### The answers -/

theorem getSettings_of_role {double : ℚ → CString} {user password : Option CString}
    (hrole : s.role user password ≠ .roleNone) :
    s.getSettings double user password = .ok (s.apiSettingsGetJson.toJsonString double) :=
  if_neg hrole

theorem listedPasswords_of_getSettings_eq {double : ℚ → CString} (h : SameButPasswords s s')
    {user password : Option CString} (hrole : s.role user password ≠ .roleNone)
    (hrole' : s'.role user password ≠ .roleNone)
    (heq : s.getSettings double user password = s'.getSettings double user password) :
    s.listedPasswords = s'.listedPasswords := by
  rw [getSettings_of_role hrole, getSettings_of_role hrole'] at heq
  exact listedPasswords_of_apiSettingsGetJson_eq h
    (Json.eq_of_toJsonString (alike_apiSettingsGetJson h) (Except.ok.inj heq))

/-- **The passwords that are listed flow to the reply, and no others.** A caller whose role is the
same in both states gets the same bytes exactly if the passwords of the accounts in the lists are
the same. -/
theorem getSettings_eq_iff (double : ℚ → CString) (h : SameButPasswords s s')
    {user password : Option CString} (hrole : s.role user password ≠ .roleNone)
    (hrole' : s'.role user password ≠ .roleNone) :
    s.getSettings double user password = s'.getSettings double user password ↔
      s.listedPasswords = s'.listedPasswords := by
  refine ⟨listedPasswords_of_getSettings_eq h hrole hrole', fun hpasswords => ?_⟩
  rw [getSettings_of_role hrole, getSettings_of_role hrole',
    apiSettingsGetJson_eq_of_listedPasswords h hpasswords]

/-- A `double` that is a whole number, printed with `%.17g` and the `.0` that json-c adds. -/
def printWhole (x : ℚ) : CString := Json.printInt x.num ++ cstr ".0"

/-- A caster whose console is open to `root`, with a file of rover accounts. -/
def oneRover (files : Files) (roverAuth : Option (List RoverAuthEntry)) : SettingsState where
  config :=
    { strings := fun f => match f with
        | .roverAuthFilename => some (cstr "rover.auth")
        | .sourceAuthFilename => some (cstr "source.auth")
        | f => Config.defaultString f
      ints := Config.defaultInt
      sizes := Config.defaultSize
      floats := Config.defaultFloat
      logLevel := 6
      trustedHttpProxy := []
      alarms := none }
  sourceAuth := some [⟨cstr "admin", cstr "root", cstr "secret"⟩]
  roverAuth := roverAuth
  userAuth := none
  files := files
  sidecarStats := .null
  executable := fun _ => false

/-- A file of rover accounts with one account. -/
def roverFile (password : CString) : Files := fun name =>
  if name = cstr "rover.auth" then some (cstr "field:" ++ password ++ cstr ":Y
") else none

theorem sameButPasswords_oneRover (roverAuth roverAuth' : Option (List RoverAuthEntry))
    (h : SameAccounts RoverAuthEntry.SameBut roverAuth roverAuth') :
    SameButPasswords (oneRover (roverFile (cstr "one")) roverAuth)
      (oneRover (roverFile (cstr "two")) roverAuth') where
  config := rfl
  sourceAuth := rfl
  sidecarStats := rfl
  executable := rfl
  roverAuth := h
  userAuth := .none
  roverFile := by
    rintro name hname
    obtain rfl := Option.some.inj hname
    exact .some (.cons rfl .nil)
  userFile := by
    rintro name hname
    contradiction
  smtpFile := by
    rintro name hname
    contradiction
  files := by
    rintro name hrover - -
    have hne : name ≠ cstr "rover.auth" := fun h => hrover (h ▸ rfl)
    exact (if_neg hne).trans (if_neg hne).symm

/-- The password in the file of rover accounts is changed by hand, and the caster has not read the
file yet. -/
theorem getSettings_eq_fileChanged :
    SameButPasswords (oneRover (roverFile (cstr "one")) none)
        (oneRover (roverFile (cstr "two")) none) ∧
      (oneRover (roverFile (cstr "one")) none).role (some (cstr "root")) (some (cstr "secret")) ≠
        .roleNone ∧
      (oneRover (roverFile (cstr "one")) none).getSettings printWhole (some (cstr "root"))
          (some (cstr "secret")) =
        (oneRover (roverFile (cstr "two")) none).getSettings printWhole (some (cstr "root"))
          (some (cstr "secret")) := by
  have hsame := sameButPasswords_oneRover none none .none
  have hrole : (oneRover (roverFile (cstr "one")) none).role (some (cstr "root"))
      (some (cstr "secret")) ≠ .roleNone := by decide
  exact ⟨hsame, hrole, (getSettings_eq_iff printWhole hsame hrole hrole).mpr rfl⟩

/-- **The password of a rover is in the reply.** -/
theorem not_getSettings_eq_roverPassword :
    ∃ s s' : SettingsState, ∃ user password : Option CString,
      SameButPasswords s s' ∧ s.role user password ≠ .roleNone ∧
        s'.role user password ≠ .roleNone ∧
        s.getSettings printWhole user password ≠ s'.getSettings printWhole user password := by
  have hsame := sameButPasswords_oneRover (some [⟨cstr "field", cstr "one", true⟩])
    (some [⟨cstr "field", cstr "two", true⟩]) (.some (.cons rfl .nil))
  have hrole (files : Files) (roverAuth : Option (List RoverAuthEntry)) :
      (oneRover files roverAuth).role (some (cstr "root")) (some (cstr "secret")) ≠ .roleNone := by
    have hadmin : (oneRover files roverAuth).role (some (cstr "root")) (some (cstr "secret")) =
        .roleAdmin := rfl
    rw [hadmin]
    decide
  refine ⟨_, _, _, _, hsame, hrole _ _, hrole _ _, fun heq => ?_⟩
  have hpasswords := listedPasswords_of_getSettings_eq hsame (hrole _ _) (hrole _ _) heq
  exact absurd hpasswords (by decide)

end SettingsState

end ChilopodCaster
