import ChilopodCaster.AccountEdits
import ChilopodCaster.SettingsReply
import ChilopodCaster.SettingsUpdate

/-!
# Setting the settings

`POST /api/v1/settings` changes up to four files. The settings of accounts come first, and each one
is carried out in its file as soon as it has been looked at. Then the configuration file is read,
edited as a structure, and written. A setting that is refused is the end of the request; what was
written before stays. A reload comes last, and its result is the answer.

The configuration file is kept apart from the files that it names.

## Main definitions

* `accountSteps` — the edits of account files that a request asks for
* `apiSettingsSetJson` — `api_settings_set_json`
-/

namespace ChilopodCaster

/-! ### Accounts -/

/-- The messages about the three files. -/
def roverTexts : AccountTexts where
  cannotOpen := cstr "cannot open rover_auth_filename"
  cannotRewrite := cstr "cannot rewrite rover_auth_filename"
  notPresent := cstr "that rover user isn't present in the config file"

def userTexts : AccountTexts where
  cannotOpen := cstr "cannot open user_auth_filename"
  cannotRewrite := cstr "cannot rewrite user_auth_filename"
  notPresent := cstr "that console user isn't present in the config file"

def smtpTexts : AccountTexts where
  cannotOpen := cstr "cannot open smtp auth_file"
  cannotRewrite := cstr "cannot rewrite smtp auth_file"
  notPresent := cstr "that host isn't present in the smtp auth_file"

/-- The edits that a setting asks for, or the message with which it is refused. -/
abbrev Asked := Option (Except CString (List FileEdit))

/-- The account with this key is removed. -/
def removeAccount (req : SettingsRequest) (key message : String) : Asked :=
  (req.get key).map fun v =>
    if fieldIsSafe v then .ok [.remove v] else .error (cstr message)

/-- One field of an account is set, to a value that must be valid. -/
def setAccountField (req : SettingsRequest) (userKey valueKey userMessage valueMessage : String)
    (valid : CString → Bool) (targetField : ℕ) : Asked :=
  (req.get userKey).map fun user =>
    if fieldIsSafe user = false then .error (cstr userMessage)
    else
      match (req.get valueKey).filter valid with
      | some value => .ok [.setField user targetField value]
      | none => .error (cstr valueMessage)

/-- A value that enables or disables an account. -/
def isYesNo (v : CString) : Bool := !strcasecmp v (cstr "Y") || !strcasecmp v (cstr "N")

/-- A value that can be a password. -/
def isPassword (v : CString) : Bool := v ≠ [] ∧ fieldIsSafe v

/-- A value that is a role. -/
def isRole (v : CString) : Bool := v = cstr "admin" ∨ v = cstr "viewer"

def roverAuthAdd (req : SettingsRequest) (roverAuth : Option (List RoverAuthEntry)) : Asked :=
  (req.get "rover_auth.add.user").map fun user =>
    (givenSafe "invalid or empty rover_auth.add.user" (some user)).bind fun user =>
      (givenSafe "invalid or empty rover_auth.add.password"
          (req.get "rover_auth.add.password")).bind fun password =>
        if (roverAuth.bind fun auth => roverAuthLookup auth user).isSome then
          .error (cstr "that rover user already exists")
        else
          let enabled := ((req.get "rover_auth.add.enabled").map fun v =>
            !strcasecmp v (cstr "Y") || !strcasecmp v (cstr "true") || v = cstr "1").getD true
          .ok [.append [user, password, if enabled then cstr "Y" else cstr "N"]]

def roverAuthRemove (req : SettingsRequest) : Asked :=
  removeAccount req "rover_auth.remove" "invalid characters in rover_auth.remove"

def roverAuthSetEnabled (req : SettingsRequest) : Asked :=
  setAccountField req "rover_auth.set_enabled.user" "rover_auth.set_enabled.value"
    "invalid characters in rover_auth.set_enabled.user"
    "rover_auth.set_enabled.value must be Y or N" isYesNo 2

def roverAuthSetPassword (req : SettingsRequest) : Asked :=
  setAccountField req "rover_auth.set_password.user" "rover_auth.set_password.value"
    "invalid characters in rover_auth.set_password.user"
    "invalid or empty rover_auth.set_password.value" isPassword 1

def userAuthAdd (req : SettingsRequest) (userAuth : Option (List UserAuthEntry)) : Asked :=
  (req.get "user_auth.add.user").map fun user =>
    (givenSafe "invalid or empty user_auth.add.user" (some user)).bind fun user =>
      (givenSafe "invalid or empty user_auth.add.password"
          (req.get "user_auth.add.password")).bind fun password =>
        match (req.get "user_auth.add.role").filter isRole with
        | none => .error (cstr "user_auth.add.role must be admin or viewer")
        | some role =>
          if (userAuth.bind fun auth => userAuthLookup auth user).isSome then
            .error (cstr "that console user already exists")
          else .ok [.append [user, password, role, cstr "Y"]]

def userAuthRemove (req : SettingsRequest) : Asked :=
  removeAccount req "user_auth.remove" "invalid characters in user_auth.remove"

def userAuthSetEnabled (req : SettingsRequest) : Asked :=
  setAccountField req "user_auth.set_enabled.user" "user_auth.set_enabled.value"
    "invalid characters in user_auth.set_enabled.user"
    "user_auth.set_enabled.value must be Y or N" isYesNo 3

def userAuthSetPassword (req : SettingsRequest) : Asked :=
  setAccountField req "user_auth.set_password.user" "user_auth.set_password.value"
    "invalid characters in user_auth.set_password.user"
    "invalid or empty user_auth.set_password.value" isPassword 1

def userAuthSetRole (req : SettingsRequest) : Asked :=
  setAccountField req "user_auth.set_role.user" "user_auth.set_role.value"
    "invalid characters in user_auth.set_role.user"
    "user_auth.set_role.value must be admin or viewer" isRole 2

/-- An entry for a mail server takes the place of the one that is there. -/
def smtpAuthSet (req : SettingsRequest) : Asked :=
  (req.get "alarms.smtp_auth.set.host").map fun host =>
    (givenSafe "invalid or empty alarms.smtp_auth.set.host" (some host)).bind fun host =>
      (givenSafe "invalid or empty alarms.smtp_auth.set.user"
          (req.get "alarms.smtp_auth.set.user")).bind fun user =>
        (givenSafe "invalid or empty alarms.smtp_auth.set.password"
            (req.get "alarms.smtp_auth.set.password")).bind fun password =>
          .ok [.drop host, .append [host, user, password]]

def smtpAuthRemove (req : SettingsRequest) : Asked :=
  removeAccount req "alarms.smtp_auth.remove" "invalid characters in alarms.smtp_auth.remove"

/-- A step of a request: an edit of one file, or a refusal. -/
abbrev AccountStep := Except CString AccountEdit

namespace AccountStep

/-- The message with which a step ends the request. -/
def refusal (env : FileEnv) : AccountStep → Files → Option CString
  | .error message, _ => some message
  | .ok e, files => e.refusal env files

/-- What a step does. -/
def effect : AccountStep → Files → Files
  | .error _, files => files
  | .ok e, files => e.effect files

end AccountStep

/-- The steps that a setting asks for in a file. -/
def stepsOf (filename : CString) (texts : AccountTexts) : Except CString (List FileEdit) →
    List AccountStep
  | .error message => [.error message]
  | .ok edits => edits.map fun edit => .ok ⟨filename, texts, edit⟩

/-- The steps in a file, which there are only if the configuration names the file. -/
def stepsIn (filename : Option CString) (texts : AccountTexts) (asked : List Asked) :
    List AccountStep :=
  (filename.map fun name => asked.reduceOption.flatMap (stepsOf name texts)).getD []

/-- The settings of accounts, with the configuration in force. -/
def accountSteps (live : SettingsState) (req : SettingsRequest) : List AccountStep :=
  stepsIn (live.config.strings .roverAuthFilename) roverTexts
      [roverAuthAdd req live.roverAuth, roverAuthRemove req, roverAuthSetEnabled req,
        roverAuthSetPassword req] ++
    (stepsIn (live.config.strings .userAuthFilename) userTexts
        [userAuthAdd req live.userAuth, userAuthRemove req, userAuthSetEnabled req,
          userAuthSetPassword req, userAuthSetRole req] ++
      stepsIn live.config.smtpAuthFile smtpTexts [smtpAuthSet req, smtpAuthRemove req])

/-! ### The request -/

/-- What the system and the libraries do during a request. -/
structure SettingsEnv extends FileEnv, SettingsText where
  /-- `cyaml_load_file`, on the content of the file -/
  load : List Byte → Option Config
  /-- `cyaml_save_file`, on the content that was there: the content then, and whether it succeeds -/
  save : Config → List Byte → List Byte × Bool
  /-- what `caster_reload` returns, with the configuration file and the other files -/
  reload : List Byte → Files → ℤ

/-- The answer: a message, or the result of the reload. -/
inductive SettingsAnswer
  | error (message : CString)
  | result (r : ℤ)
  deriving DecidableEq, Repr

/-- The field `result` of the answer. -/
def SettingsAnswer.code : SettingsAnswer → ℤ
  | error _ => -1
  | result r => r

/-- What a request leaves behind. -/
structure SettingsOutcome where
  configFile : List Byte
  files : Files
  /-- `config_save_for_edit` has written the configuration file -/
  saved : Bool
  answer : SettingsAnswer

/-- The settings of the configuration, which are looked at in turn. -/
def editConfig (env : SettingsEnv) (req : SettingsRequest) (edit : Config) :
    (Config × Bool) × Option CString :=
  Refusal.run (fun e _ => ConfigEdit.refusal e) ConfigEdit.apply
    (settingsEdits env.toSettingsText req) (edit, false)

/-- `api_settings_set_json`, from the point where the configuration has been edited. -/
def saveAndReload (env : SettingsEnv) (configFile : List Byte) (files : Files) (changed : Bool)
    (edit : Config) (yamlChanged : Bool) : SettingsOutcome :=
  if changed = false then ⟨configFile, files, false, .error (cstr "no settings provided")⟩
  else if yamlChanged = false then ⟨configFile, files, false, .result (env.reload configFile files)⟩
  else
    let saved := env.save edit configFile
    if saved.2 then ⟨saved.1, files, true, .result (env.reload saved.1 files)⟩
    else ⟨saved.1, files, false, .error (cstr "cannot write config file")⟩

/-- `api_settings_set_json`, from the point where the accounts have been edited. -/
def setConfig (env : SettingsEnv) (configFile : List Byte) (files : Files) (changed : Bool)
    (req : SettingsRequest) : SettingsOutcome :=
  match env.load configFile with
  | none => ⟨configFile, files, false, .error (cstr "cannot read config file")⟩
  | some edit =>
    match editConfig env req edit with
    | (_, some message) => ⟨configFile, files, false, .error message⟩
    | ((edit, yamlChanged), none) =>
      saveAndReload env configFile files (changed || yamlChanged) edit yamlChanged

/-- `api_settings_set_json` -/
def apiSettingsSetJson (env : SettingsEnv) (live : SettingsState) (configFile : List Byte)
    (req : SettingsRequest) : SettingsOutcome :=
  let steps := accountSteps live req
  match Refusal.run (AccountStep.refusal env.toFileEnv) AccountStep.effect steps live.files with
  | (files, some message) => ⟨configFile, files, false, .error message⟩
  | (files, none) => setConfig env configFile files (!steps.isEmpty) req

/-! ### What is read back -/

/-- cyaml reads back the structure that it has written, as far as the schema goes, and a field that
the schema does not have is never set. -/
structure SettingsEnv.Faithful (env : SettingsEnv) : Prop where
  load_save : ∀ edit old, (env.save edit old).2 = true →
    env.load (env.save edit old).1 = some edit.saved
  load : ∀ content config, env.load content = some config → config.saved = config

variable {env : SettingsEnv} {live : SettingsState} {configFile : List Byte} {req : SettingsRequest}

/-! ### The ways through a request -/

/-- Every setting of the configuration is a value of its field. -/
def SettingsValid (ext : SettingsText) (req : SettingsRequest) : Prop :=
  ∀ e ∈ settingsEdits ext req, e.refusal = none

/-- The structure with the settings of the request, and whether one of them does anything. -/
def edited (env : SettingsEnv) (req : SettingsRequest) (edit : Config) : Config × Bool :=
  (settingsEdits env.toSettingsText req).foldl (fun s e => e.apply s) (edit, false)

theorem edited_fst (edit : Config) :
    (edited env req edit).1 = edit.updated .code env.toSettingsText req :=
  foldl_settingsEdits env.toSettingsText req (edit, false)

theorem accepted_iff_settingsValid {edit : Config} :
    Refusal.Accepted (fun e _ => ConfigEdit.refusal e) ConfigEdit.apply
      (settingsEdits env.toSettingsText req) (edit, false) ↔
        SettingsValid env.toSettingsText req :=
  Refusal.accepted_iff_forall fun _ _ _ => rfl

theorem editConfig_of_valid (h : SettingsValid env.toSettingsText req) (edit : Config) :
    editConfig env req edit = (edited env req edit, none) :=
  Refusal.run_of_forall (accepted_iff_settingsValid.mpr h)

theorem editConfig_of_not_valid (h : ¬ SettingsValid env.toSettingsText req) (edit : Config) :
    ∃ s message, editConfig env req edit = (s, some message) := by
  rcases Refusal.accepted_or_stopsAt _ _ (settingsEdits env.toSettingsText req) (edit, false) with
    haccepted | ⟨done, message, hstops⟩
  · exact absurd (accepted_iff_settingsValid.mp haccepted) h
  · exact ⟨_, message, Refusal.run_of_stopsAt hstops⟩

/-- None of the settings of accounts is refused. -/
def AccountsAccepted (env : SettingsEnv) (live : SettingsState) (req : SettingsRequest) : Prop :=
  Refusal.Accepted (AccountStep.refusal env.toFileEnv) AccountStep.effect (accountSteps live req)
    live.files

/-- The files, after all the settings of accounts. -/
def accountsAfter (live : SettingsState) (req : SettingsRequest) : Files :=
  Refusal.after AccountStep.effect (accountSteps live req) live.files

theorem apiSettingsSetJson_of_accepted (h : AccountsAccepted env live req) :
    apiSettingsSetJson env live configFile req = setConfig env configFile (accountsAfter live req)
      (!(accountSteps live req).isEmpty) req := by
  have hrun := Refusal.run_of_forall h
  simp only [apiSettingsSetJson, hrun]
  rfl

theorem apiSettingsSetJson_of_stopsAt {done : List AccountStep} {message : CString}
    (h : Refusal.StopsAt (AccountStep.refusal env.toFileEnv) AccountStep.effect
      (accountSteps live req) done message live.files) :
    apiSettingsSetJson env live configFile req = ⟨configFile,
      Refusal.after AccountStep.effect done live.files, false, .error message⟩ := by
  have hrun := Refusal.run_of_stopsAt h
  simp only [apiSettingsSetJson, hrun]

theorem accountsAccepted_or (env : SettingsEnv) (live : SettingsState) (req : SettingsRequest) :
    AccountsAccepted env live req ∨ ∃ done message,
      Refusal.StopsAt (AccountStep.refusal env.toFileEnv) AccountStep.effect
        (accountSteps live req) done message live.files :=
  Refusal.accepted_or_stopsAt _ _ _ _

variable {files : Files} {changed : Bool} {c : Config}

theorem setConfig_of_load (hload : env.load configFile = some c)
    (hvalid : SettingsValid env.toSettingsText req) :
    setConfig env configFile files changed req =
      saveAndReload env configFile files (changed || (edited env req c).2) (edited env req c).1
        (edited env req c).2 := by
  rw [setConfig, hload]
  simp only [editConfig_of_valid hvalid]

/-- A request that is carried out, when it has a setting of the configuration. -/
theorem apiSettingsSetJson_of_saved (haccepted : AccountsAccepted env live req)
    (hload : env.load configFile = some c) (hvalid : SettingsValid env.toSettingsText req)
    (hchanged : (edited env req c).2 = true)
    (hsave : (env.save (c.updated .code env.toSettingsText req) configFile).2 = true) :
    apiSettingsSetJson env live configFile req =
      ⟨(env.save (c.updated .code env.toSettingsText req) configFile).1, accountsAfter live req,
        true,
        .result (env.reload (env.save (c.updated .code env.toSettingsText req) configFile).1
          (accountsAfter live req))⟩ := by
  rw [apiSettingsSetJson_of_accepted haccepted, setConfig_of_load hload hvalid, edited_fst,
    hchanged,
    Bool.or_true]
  exact if_pos hsave

/-- A request that cannot be carried out leaves the configuration file alone. -/
theorem setConfig_of_refused
    (h : env.load configFile = none ∨ ¬ SettingsValid env.toSettingsText req) :
    ∃ message, setConfig env configFile files changed req =
      ⟨configFile, files, false, .error message⟩ := by
  rw [setConfig]
  cases hload : env.load configFile with
  | none => exact ⟨_, rfl⟩
  | some edit =>
    have hvalid : ¬ SettingsValid env.toSettingsText req := by
      rcases h with h | h
      · rw [hload] at h
        exact absurd h (Option.some_ne_none edit)
      · exact h
    obtain ⟨s, message, hedit⟩ := editConfig_of_not_valid hvalid edit
    simp only [hedit]
    exact ⟨message, rfl⟩

/-- **A request that writes the configuration file** has read it, and writes the structure with all
the settings. -/
theorem exists_load_of_saved
    (h : (apiSettingsSetJson env live configFile req).saved = true) :
    ∃ c, env.load configFile = some c ∧ SettingsValid env.toSettingsText req ∧
      (env.save (c.updated .code env.toSettingsText req) configFile).2 = true ∧
      (apiSettingsSetJson env live configFile req).configFile =
        (env.save (c.updated .code env.toSettingsText req) configFile).1 := by
  rcases accountsAccepted_or env live req with haccepted | ⟨done, message, hstops⟩
  · rw [apiSettingsSetJson_of_accepted haccepted] at h ⊢
    cases hload : env.load configFile with
    | none =>
      obtain ⟨message, hset⟩ := setConfig_of_refused (.inl hload)
      rw [hset] at h
      contradiction
    | some c =>
      by_cases hvalid : SettingsValid env.toSettingsText req
      · rw [setConfig_of_load hload hvalid, edited_fst] at h ⊢
        refine ⟨c, rfl, hvalid, ?_⟩
        simp only [saveAndReload] at h ⊢
        split at h
        · contradiction
        · next hchanged =>
          rw [if_neg hchanged]
          split at h
          · contradiction
          · next hyaml =>
            rw [if_neg hyaml]
            split at h
            · next hsave =>
              rw [if_pos hsave]
              exact ⟨hsave, rfl⟩
            · contradiction
      · obtain ⟨message, hset⟩ := setConfig_of_refused (.inr hvalid)
        rw [hset] at h
        contradiction
  · rw [apiSettingsSetJson_of_stopsAt hstops] at h
    contradiction

end ChilopodCaster
