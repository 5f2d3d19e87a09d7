import ChilopodCaster.AccountFiles
import ChilopodCaster.Fetchers
import ChilopodCaster.FilterUse
import ChilopodCaster.Listeners
import ChilopodCaster.Quota
import ChilopodCaster.Syncer

/-!
# A reload that fails

`caster_reload` parses the configuration file, then reloads what it refers to: logs, tables,
accounts, quotas, filters, tasks and listeners. When the file does not parse, it returns at once.
When something else fails, it goes on, and the new configuration is installed with what could be
loaded; the accounts or the quotas of a file that could not be read are then `NULL` in it.

What `NULL` means differs from one file to the other: no account matches, but there is no quota.

## Main definitions

* `Caster.casterReload` — `caster_reload`, with its ten parts
* `LiveConfig.allows` — what the accounts and the quotas of a configuration let through
* `ReloadSafe` — a reload that fails changes nothing, or takes nothing off

## Main results

* `reloadSafe_iff` — when this is so
-/

namespace ChilopodCaster

open Rtcm

/-- The fields of `struct config` that a reload reads, as `config_parse` returns them. -/
structure ReloadConfig where
  hostAuthFilename : Option CString
  sourceAuthFilename : Option CString
  roverAuthFilename : Option CString
  userAuthFilename : Option CString
  blocklistFilename : Option CString
  sourcetableFilename : CString
  sourcetablePriority : ℤ
  logLevel : ℤ
  /-- the facility and the level of `syslog[0]` -/
  syslog : Option (ℤ × ℤ)
  /-- the levels of the entries of `graylog` -/
  graylog : List ℤ
  rtcmFilter : List ConfigRtcmFilter
  backlogEvbuffer : ℕ
  node : List ConfigNode
  proxy : List ConfigProxy
  bind : List ConfigBind

/-- `struct config` once it is installed, with the accounts and the quotas; `NULL` is `none`. -/
structure LiveConfig where
  file : ReloadConfig
  hostAuth : Option (List AuthEntry)
  sourceAuth : Option (List AuthEntry)
  roverAuth : Option (List RoverAuthEntry)
  userAuth : Option (List UserAuthEntry)
  blocklist : Option PrefixTable
  filter : FilterDynconfig

/-- The levels in `struct log`. -/
structure LogLevels where
  logLevel : ℤ
  graylogLevel : ℤ
  syslogLevel : ℤ
  syslogFacility : ℤ
  deriving DecidableEq, Repr

/-- What the system answers during a reload. -/
structure ReloadEnv where
  files : Files
  /-- the log files can be opened -/
  log : Bool
  accessLog : Bool
  /-- the graylog senders can be allocated -/
  graylog : Bool
  /-- there is memory for the array of listeners -/
  listeners : Bool
  bind : ℕ → BindEnv
  proxy : ℕ → FetchEnv
  /-- the full table that the syncers send first -/
  full : Packet

/-- `struct caster_state`, as far as a reload goes. `graylog` counts the senders. -/
structure Caster (F : Type) where
  configGen : ℕ
  config : LiveConfig
  backlogEvbuffer : ℕ
  graylogLogLevel : ℤ
  flog : LogLevels
  alog : LogLevels
  fetching : Fetching F
  syncers : Option Syncer
  graylog : ℕ
  listening : Listening

/-- The result of a sequence of parts of which each returns 0 or -1. -/
def joinResults (rs : List ℤ) : ℤ := if rs.any (· < 0) then -1 else 0

theorem joinResults_of_mem {rs : List ℤ} {r : ℤ} (h : r ∈ rs) (hr : r < 0) : joinResults rs = -1 :=
  if_pos (List.any_eq_true.mpr ⟨r, h, decide_eq_true hr⟩)

/-- A file that the configuration refers to is read and parsed. The field stays `NULL` without a
name and after a failure. -/
def loadFile {α : Type} (files : Files) (parse : List Byte → Option α) (filename : Option CString) :
    Option α × ℤ :=
  match filename with
  | none => (none, 0)
  | some filename =>
    match (files filename).bind parse with
    | some tmp => (some tmp, 0)
    | none => (none, -1)

namespace Caster

variable {F : Type} (scanFloat : CString → Option F)

/-- `caster_reopen_logs`. -/
def casterReopenLogs (this : Caster F) (config : ReloadConfig) (env : ReloadEnv) : Caster F × ℤ :=
  let flog : LogLevels := ⟨config.logLevel, config.graylog.headD (-1),
    (config.syslog.map Prod.snd).getD (-1), (config.syslog.map Prod.fst).getD (-1)⟩
  ({ this with
      flog := if env.log then flog else this.flog
      alog := if env.accessLog then ⟨0, -1, -1, -1⟩ else this.alog },
    joinResults [if env.log then 0 else -1, if env.accessLog then 0 else -1])

/-- `caster_reload_auth` and `caster_reload_blocklist`, and the filters. -/
def loadConfig (newConfig : ReloadConfig) (env : ReloadEnv) : LiveConfig where
  file := newConfig
  hostAuth := (loadFile env.files authParse newConfig.hostAuthFilename).1
  sourceAuth := (loadFile env.files authParse newConfig.sourceAuthFilename).1
  roverAuth := (loadFile env.files roverAuthParse newConfig.roverAuthFilename).1
  userAuth := (loadFile env.files userAuthParse newConfig.userAuthFilename).1
  blocklist := (loadFile env.files prefixTableRead newConfig.blocklistFilename).1
  filter := (casterReloadRtcmFilters newConfig.rtcmFilter).1

/-- What `caster_reload_auth` returns. -/
def casterReloadAuth (newConfig : ReloadConfig) (env : ReloadEnv) : ℤ :=
  joinResults [(loadFile env.files authParse newConfig.hostAuthFilename).2,
    (loadFile env.files authParse newConfig.sourceAuthFilename).2,
    (loadFile env.files roverAuthParse newConfig.roverAuthFilename).2,
    (loadFile env.files userAuthParse newConfig.userAuthFilename).2]

/-- What `caster_reload_blocklist` returns. -/
def casterReloadBlocklist (newConfig : ReloadConfig) (env : ReloadEnv) : ℤ :=
  (loadFile env.files prefixTableRead newConfig.blocklistFilename).2

/-- `caster_reload_syncers`: the syncer is taken over, or a new one is made. -/
def casterReloadSyncers (syncers : Option Syncer) (node : List ConfigNode) : Option Syncer :=
  if node = [] then none
  else (if syncers.isSome then syncers else Syncer.new node).map fun a => a.reload node

/-- `caster_start_syncers`. -/
def casterStartSyncers (syncers : Option Syncer) (env : ReloadEnv) : Option (Option Syncer) :=
  match syncers with
  | none => some none
  | some a => (a.startAll env.full).map some

/-- `caster_reload_graylog`: the senders, and the result. -/
def casterReloadGraylog (newConfig : ReloadConfig) (env : ReloadEnv) : ℕ × ℤ :=
  if newConfig.graylog = [] then (0, 0)
  else if env.graylog then (newConfig.graylog.length, 0) else (0, -1)

/-- The local sourcetable, as `sourcetable_read` returns it. -/
def localTable (newConfig : ReloadConfig) (env : ReloadEnv) : Option (Sourcetable F) :=
  (env.files newConfig.sourcetableFilename).bind fun content =>
    Sourcetable.read scanFloat newConfig.sourcetableFilename content newConfig.sourcetablePriority

/-- `caster_reload`, where `newConfig` is what `config_parse` returns. A part of it that crashes is
`none`. The parts about tables and fetchers are together, as are the reload and the start of each
kind of task: they have no state in common with what stands between. -/
def casterReload (this : Caster F) (newConfig : Option ReloadConfig) (env : ReloadEnv) :
    Option (Caster F × ℤ) :=
  let this := { this with configGen := this.configGen + 1, graylogLogLevel := -1 }
  match newConfig with
  | none => some (this, -1)
  | some newConfig => do
    let (this, rLogs) := this.casterReopenLogs newConfig env
    let table := localTable scanFloat newConfig env
    let fetching := this.fetching.casterReloadFetchers table
      (newConfig.proxy.zipIdx.map fun e => (e.1, env.proxy e.2))
    let (graylog, rGraylog) := casterReloadGraylog newConfig env
    let (listening, rListeners) ← this.listening.casterReloadListeners env.listeners
      (newConfig.bind.zipIdx.map fun e => (e.1, env.bind e.2))
    let syncers ← casterStartSyncers (casterReloadSyncers this.syncers newConfig.node) env
    return ({ this with
        config := loadConfig newConfig env
        backlogEvbuffer := newConfig.backlogEvbuffer
        fetching := fetching
        syncers := syncers
        graylog := graylog
        listening := listening
        graylogLogLevel := newConfig.graylog.headD (-1) },
      joinResults [rLogs, if table.isSome then 0 else -1, casterReloadAuth newConfig env,
        casterReloadBlocklist newConfig env, (casterReloadRtcmFilters newConfig.rtcmFilter).2,
        rGraylog, rListeners, if fetching.live.all Option.isSome then 0 else -1])

end Caster

/-! ### What a configuration lets through -/

/-- The files that govern an access. -/
inductive AccessFile
  | hostAuth
  | sourceAuth
  | roverAuth
  | userAuth
  | blocklist
  deriving DecidableEq, Repr

/-- Something that the caster lets through or refuses. -/
inductive AccessRequest
  /-- a stream is fetched from a host that asks for an account -/
  | fetch (host : CString)
  /-- a source gives its credentials -/
  | source (mountpoint : CString) (user : Option CString) (passwd : CString)
  /-- a client that is not exempt gives its credentials -/
  | rover (user passwd : Option CString)
  /-- someone without the credentials of `admin_user` comes to the console -/
  | console (user password : CString)
  /-- an address has so many connections -/
  | connection (addr : Sock) (ipcount : ℤ)

/-- The file that governs it. -/
def AccessRequest.file : AccessRequest → AccessFile
  | .fetch _ => .hostAuth
  | .source .. => .sourceAuth
  | .rover .. => .roverAuth
  | .console .. => .userAuth
  | .connection .. => .blocklist

/-- `auth_lookupi`. -/
def authLookupi (auth : List AuthEntry) (key : CString) : Option AuthEntry :=
  auth.find? fun e => !strcasecmp e.key key

/-- The tests of the source, with the fields of the configuration. The source accounts open the
console on their own, and are left out of its test. -/
def LiveConfig.allows (this : LiveConfig) : AccessRequest → Bool
  | .fetch host => (this.hostAuth.bind fun auth => authLookupi auth host).isSome
  | .source mountpoint user passwd =>
    checkPassword this.sourceAuth mountpoint user passwd ≠ .mountpointInvalid
  | .rover user passwd =>
    this.file.roverAuthFilename.isNone || checkRoverPassword this.roverAuth user passwd
  | .console user password =>
    resolveAdminRole none [] this.userAuth (some user) (some password) ≠ .roleNone
  | .connection addr ipcount => ntripQuotaCheck (ntripQuotaGet this.blocklist addr) ipcount

/-- The previous content stays in force. -/
def LiveConfig.Keeps (this old : LiveConfig) (f : AccessFile) : Prop :=
  ∀ q : AccessRequest, q.file = f → this.allows q = old.allows q

/-- Every access is refused. -/
def LiveConfig.Refuses (this : LiveConfig) (f : AccessFile) : Prop :=
  ∀ q : AccessRequest, q.file = f → this.allows q = false

/-- There is a name, and the file cannot be read or parsed. -/
def Unreadable {α : Type} (files : Files) (parse : List Byte → Option α)
    (filename : Option CString) : Prop :=
  ∃ name, filename = some name ∧ (files name).bind parse = none

def ReloadConfig.Unreadable (this : ReloadConfig) (files : Files) : AccessFile → Prop
  | .hostAuth => ChilopodCaster.Unreadable files authParse this.hostAuthFilename
  | .sourceAuth => ChilopodCaster.Unreadable files authParse this.sourceAuthFilename
  | .roverAuth => ChilopodCaster.Unreadable files roverAuthParse this.roverAuthFilename
  | .userAuth => ChilopodCaster.Unreadable files userAuthParse this.userAuthFilename
  | .blocklist => ChilopodCaster.Unreadable files prefixTableRead this.blocklistFilename

/-- A reload that fails is safe: nothing has changed if the configuration does not parse, and a file
that cannot be read opens nothing. The number of the generation is drawn in any case. -/
structure ReloadSafe {F : Type} (this : Caster F) (newConfig : Option ReloadConfig)
    (env : ReloadEnv) (that : Caster F) (r : ℤ) : Prop where
  parse : newConfig = none → r = -1 ∧ { that with configGen := this.configGen } = this
  files : ∀ config, newConfig = some config → ∀ f, config.Unreadable env.files f →
    r = -1 ∧ (that.config.Keeps this.config f ∨ that.config.Refuses f)

/-- Logs do not go to graylog when the configuration does not parse, and nobody was limited so far
when the blocklist cannot be read. -/
structure NothingToLose {F : Type} (this : Caster F) (newConfig : Option ReloadConfig)
    (env : ReloadEnv) : Prop where
  graylog : newConfig = none → this.graylogLogLevel = -1
  blocklist : ∀ config, newConfig = some config → config.Unreadable env.files .blocklist →
    ∀ addr ipcount, this.config.allows (.connection addr ipcount) = true

/-! ### The accounts and the quotas after a reload -/

theorem loadFile_of_unreadable {α : Type} {files : Files} {parse : List Byte → Option α}
    {filename : Option CString} (h : Unreadable files parse filename) :
    loadFile files parse filename = (none, -1) := by
  obtain ⟨name, rfl, hnone⟩ := h
  rw [loadFile, hnone]

namespace Caster

variable {F : Type} {scanFloat : CString → Option F} {this that : Caster F} {r : ℤ}
  {config : ReloadConfig} {env : ReloadEnv}

/-- A reload whose file parses installs the configuration, whatever else has failed. -/
theorem casterReload_some
    (h : this.casterReload scanFloat (some config) env = some (that, r)) :
    that.config = loadConfig config env ∧
      (casterReloadAuth config env < 0 ∨ casterReloadBlocklist config env < 0 → r = -1) := by
  simp only [casterReload] at h
  obtain ⟨⟨listening, rListeners⟩, -, h⟩ := Option.bind_eq_some_iff.mp h
  obtain ⟨syncers, -, h⟩ := Option.bind_eq_some_iff.mp h
  obtain ⟨rfl, rfl⟩ := Prod.mk.inj (Option.some.inj h)
  refine ⟨rfl, fun hfails => ?_⟩
  rcases hfails with hfails | hfails
  · exact joinResults_of_mem (by simp) hfails
  · exact joinResults_of_mem (by simp) hfails

theorem result_of_unreadable {f : AccessFile} (hf : config.Unreadable env.files f) :
    casterReloadAuth config env < 0 ∨ casterReloadBlocklist config env < 0 := by
  have hauth : ∀ {rs : List ℤ}, -1 ∈ rs → joinResults rs < 0 := by
    intro rs hmem
    rw [joinResults_of_mem hmem (by decide)]
    decide
  cases f with
  | hostAuth =>
    have hload : loadFile env.files authParse config.hostAuthFilename = (none, -1) :=
      loadFile_of_unreadable hf
    exact .inl (hauth (by simp [hload]))
  | sourceAuth =>
    have hload : loadFile env.files authParse config.sourceAuthFilename = (none, -1) :=
      loadFile_of_unreadable hf
    exact .inl (hauth (by simp [hload]))
  | roverAuth =>
    have hload : loadFile env.files roverAuthParse config.roverAuthFilename = (none, -1) :=
      loadFile_of_unreadable hf
    exact .inl (hauth (by simp [hload]))
  | userAuth =>
    have hload : loadFile env.files userAuthParse config.userAuthFilename = (none, -1) :=
      loadFile_of_unreadable hf
    exact .inl (hauth (by simp [hload]))
  | blocklist =>
    refine .inr ?_
    rw [casterReloadBlocklist, loadFile_of_unreadable hf]
    decide

/-- Without accounts nobody is let through. -/
theorem refuses_of_unreadable {f : AccessFile} (hne : f ≠ .blocklist)
    (hf : config.Unreadable env.files f) : (loadConfig config env).Refuses f := by
  intro q hq
  cases q with
  | fetch host =>
    subst hq
    have hnone : (loadConfig config env).hostAuth = none :=
      congrArg Prod.fst (loadFile_of_unreadable hf)
    simp [LiveConfig.allows, hnone]
  | source mountpoint user passwd =>
    subst hq
    have hnone : (loadConfig config env).sourceAuth = none :=
      congrArg Prod.fst (loadFile_of_unreadable hf)
    simp [LiveConfig.allows, hnone, checkPassword]
  | rover user passwd =>
    subst hq
    have hnone : (loadConfig config env).roverAuth = none :=
      congrArg Prod.fst (loadFile_of_unreadable hf)
    have hname : (loadConfig config env).file.roverAuthFilename.isNone = false := by
      obtain ⟨name, hname, -⟩ := hf
      simp [loadConfig, hname]
    simp [LiveConfig.allows, hnone, hname, checkRoverPassword]
  | console user password =>
    subst hq
    have hnone : (loadConfig config env).userAuth = none :=
      congrArg Prod.fst (loadFile_of_unreadable hf)
    simp [LiveConfig.allows, hnone, resolveAdminRole, checkPassword]
  | connection addr ipcount => exact absurd hq.symm hne

/-- Without quotas everybody is. -/
theorem allows_of_unreadable (hf : config.Unreadable env.files .blocklist) (addr : Sock)
    (ipcount : ℤ) : (loadConfig config env).allows (.connection addr ipcount) = true := by
  have hnone : (loadConfig config env).blocklist = none :=
    congrArg Prod.fst (loadFile_of_unreadable hf)
  simp [LiveConfig.allows, hnone, ntripQuotaGet, ntripQuotaCheck]

end Caster

open Caster in
/-- **A failed reload is safe if and only if there was nothing to lose.** Nothing has changed after
a configuration that does not parse exactly when logs did not go to graylog before. After a file
that cannot be read, the previous content is in force or every access is refused, except for the
blocklist, which then has to have let everything through before. -/
theorem reloadSafe_iff {F : Type} {scanFloat : CString → Option F} {this that : Caster F}
    {newConfig : Option ReloadConfig} {env : ReloadEnv} {r : ℤ}
    (h : this.casterReload scanFloat newConfig env = some (that, r)) :
    ReloadSafe this newConfig env that r ↔ NothingToLose this newConfig env := by
  constructor
  · intro hsafe
    refine ⟨?_, ?_⟩
    · rintro rfl
      obtain ⟨rfl, rfl⟩ := Prod.mk.inj (Option.some.inj h)
      exact (congrArg Caster.graylogLogLevel (hsafe.parse rfl).2).symm
    · rintro config rfl hf addr ipcount
      obtain ⟨hconfig, -⟩ := casterReload_some h
      have hallows := allows_of_unreadable hf addr ipcount
      rcases (hsafe.files config rfl _ hf).2 with hkeeps | hrefuses
      · rw [← hkeeps (.connection addr ipcount) rfl, hconfig]
        exact hallows
      · have hrefused := hrefuses (.connection addr ipcount) rfl
        rw [hconfig, hallows] at hrefused
        contradiction
  · rintro ⟨hgraylog, hblocklist⟩
    refine ⟨?_, ?_⟩
    · rintro rfl
      obtain ⟨rfl, rfl⟩ := Prod.mk.inj (Option.some.inj h)
      refine ⟨rfl, ?_⟩
      rw [← hgraylog rfl]
    · rintro config rfl f hf
      obtain ⟨hconfig, hr⟩ := casterReload_some h
      refine ⟨hr (result_of_unreadable hf), ?_⟩
      rw [hconfig]
      by_cases hfile : f = .blocklist
      · subst hfile
        refine .inl fun q hq => ?_
        cases q with
        | connection addr ipcount =>
          rw [allows_of_unreadable hf, hblocklist config rfl hf]
        | _ => contradiction
      · exact .inr (refuses_of_unreadable hfile hf)

/-- A configuration with a blocklist. -/
def withBlocklist : ReloadConfig where
  hostAuthFilename := some (cstr "host.auth")
  sourceAuthFilename := some (cstr "source.auth")
  roverAuthFilename := none
  userAuthFilename := none
  blocklistFilename := some (cstr "blocklist")
  sourcetableFilename := cstr "sourcetable.dat"
  sourcetablePriority := 100
  logLevel := 6
  syslog := none
  graylog := [6]
  rtcmFilter := []
  backlogEvbuffer := 16384
  node := []
  proxy := []
  bind := []

/-- A caster with this blocklist in force, at this level for graylog. -/
def runningWith (graylogLogLevel : ℤ) (blocklist : Option PrefixTable) : Caster ℤ where
  configGen := 2
  config := ⟨withBlocklist, none, none, none, none, blocklist, ⟨none, none⟩⟩
  backlogEvbuffer := 16384
  graylogLogLevel := graylogLogLevel
  flog := ⟨6, 6, -1, -1⟩
  alog := ⟨0, -1, -1, -1⟩
  fetching := Fetching.new
  syncers := none
  graylog := 1
  listening := Listening.new

/-- No file can be opened. -/
def noFiles : ReloadEnv where
  files _ := none
  log := false
  accessLog := false
  graylog := true
  listeners := true
  bind _ := ⟨⟨false, false, false⟩, false, ⟨false, false, false⟩, false⟩
  proxy _ := ⟨false, false⟩
  full := Packet.new []

/-- All accounts are lost, and nobody is let through. -/
theorem reloadSafe_noFiles :
    ∃ that r, (runningWith (-1) none).casterReload (fun _ => none) (some withBlocklist) noFiles =
      some (that, r) ∧ ReloadSafe (runningWith (-1) none) (some withBlocklist) noFiles that r := by
  obtain ⟨that, r, hreload⟩ : ∃ that r, (runningWith (-1) none).casterReload (fun _ => none)
      (some withBlocklist) noFiles = some (that, r) := ⟨_, _, rfl⟩
  refine ⟨that, r, hreload, (reloadSafe_iff hreload).mpr ⟨fun hnone => by contradiction, ?_⟩⟩
  intro config _ _ addr ipcount
  simp [LiveConfig.allows, runningWith, ntripQuotaGet, ntripQuotaCheck]

/-- Logs stop going to graylog after a configuration that does not parse, and an address that was
shut out comes in after a blocklist that cannot be read. -/
theorem not_reloadSafe_graylog_blocklist :
    (∃ that r, (runningWith 6 none).casterReload (fun _ => none) none noFiles = some (that, r) ∧
      ¬ ReloadSafe (runningWith 6 none) none noFiles that r) ∧
    ∃ that r, (runningWith (-1) (some ⟨[], [⟨⟨.quad 192 0 2 0, 24⟩, 0⟩]⟩)).casterReload
        (fun _ => none) (some withBlocklist) noFiles = some (that, r) ∧
      ¬ ReloadSafe (runningWith (-1) (some ⟨[], [⟨⟨.quad 192 0 2 0, 24⟩, 0⟩]⟩))
        (some withBlocklist) noFiles that r := by
  refine ⟨⟨_, _, rfl, fun hsafe => ?_⟩, _, _, rfl, fun hsafe => ?_⟩
  · have hlevel := congrArg Caster.graylogLogLevel (hsafe.parse rfl).2
    exact absurd hlevel (by decide)
  · have hunreadable : withBlocklist.Unreadable noFiles.files .blocklist :=
      ⟨cstr "blocklist", rfl, rfl⟩
    rcases (hsafe.files withBlocklist rfl _ hunreadable).2 with hkeeps | hrefuses
    · exact absurd (hkeeps (.connection (.quad 192 0 2 7) 1) rfl) (by decide +kernel)
    · exact absurd (hrefuses (.connection (.quad 192 0 2 7) 1) rfl) (by decide +kernel)

end ChilopodCaster
