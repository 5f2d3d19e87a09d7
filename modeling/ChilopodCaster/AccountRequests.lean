import ChilopodCaster.AccountLists
import ChilopodCaster.SettingsWhole

/-!
# Requests that edit accounts

`POST /api/v1/settings` edits the accounts of rovers and of administrators, and `POST
/api/v1/auth/set` those of sources. Each of these requests is meant for the list of accounts that is
read from the file.

The names and values are looked at before they are written, so that none has a separator or the end
of a line in it. Two cases are missed: a name that begins with `#`, which makes the line a comment,
and a file whose last line lacks its newline, which takes the new account.

## Main definitions

* `sourceFormat`, `roverFormat`, `userFormat` — the three files
* `apiAuthSetJson` — `api_auth_set_json`

## Main results

* `accounts_edited_iff` — when the file that is edited is read as the list that is edited
-/

namespace ChilopodCaster

open Lines

/-! ### The three files -/

theorem exists_of_length_four {r : List CString} (h : r.length = 4) :
    ∃ a b c d, r = [a, b, c, d] := by
  obtain ⟨a, r, rfl⟩ := List.exists_cons_of_length_eq_add_one h
  obtain ⟨b, c, d, rfl⟩ := List.length_eq_three.mp (Nat.succ.inj h)
  exact ⟨a, b, c, d, rfl⟩

/-- The file that `auth_parse` reads. -/
def sourceFormat : AccountFormat AuthEntry where
  nfields := 3
  entry pl := ⟨field pl 0, field pl 1, field pl 2⟩
  key e := e.key
  set i v e := if i = 1 then { e with user := v } else if i = 2 then { e with password := v } else e
  Same v w := v = w
  two_le := by decide
  key_entry _ := rfl
  entry_set := by
    intro r i v h hi
    obtain ⟨a, b, c, rfl⟩ := List.length_eq_three.mp h
    rcases i with - | - | - | i
    · exact absurd hi (Nat.lt_irrefl 0)
    · rfl
    · rfl
    · rw [if_neg (by omega), if_neg (by omega)]
      rfl
  entry_set_last_iff := by
    intro r v h
    obtain ⟨a, b, c, rfl⟩ := List.length_eq_three.mp h
    exact ⟨congrArg AuthEntry.password, fun hv => congrArg (AuthEntry.mk a b) hv⟩

/-- The file that `rover_auth_parse` reads. -/
def roverFormat : AccountFormat RoverAuthEntry where
  nfields := 3
  entry pl := ⟨field pl 0, field pl 1, isEnabled (field pl 2)⟩
  key e := e.user
  set i v e :=
    if i = 1 then { e with password := v }
    else if i = 2 then { e with enabled := isEnabled v }
    else e
  Same v w := isEnabled v = isEnabled w
  two_le := by decide
  key_entry _ := rfl
  entry_set := by
    intro r i v h hi
    obtain ⟨a, b, c, rfl⟩ := List.length_eq_three.mp h
    rcases i with - | - | - | i
    · exact absurd hi (Nat.lt_irrefl 0)
    · rfl
    · rfl
    · rw [if_neg (by omega), if_neg (by omega)]
      rfl
  entry_set_last_iff := by
    intro r v h
    obtain ⟨a, b, c, rfl⟩ := List.length_eq_three.mp h
    exact ⟨congrArg RoverAuthEntry.enabled, fun hv => congrArg (RoverAuthEntry.mk a b) hv⟩

/-- The file that `user_auth_parse` reads. -/
def userFormat : AccountFormat UserAuthEntry where
  nfields := 4
  entry pl := ⟨field pl 0, field pl 1, field pl 2, isEnabled (field pl 3)⟩
  key e := e.user
  set i v e :=
    if i = 1 then { e with password := v }
    else if i = 2 then { e with role := v }
    else if i = 3 then { e with enabled := isEnabled v }
    else e
  Same v w := isEnabled v = isEnabled w
  two_le := by decide
  key_entry _ := rfl
  entry_set := by
    intro r i v h hi
    obtain ⟨a, b, c, d, rfl⟩ := exists_of_length_four h
    rcases i with - | - | - | - | i
    · exact absurd hi (Nat.lt_irrefl 0)
    · rfl
    · rfl
    · rfl
    · rw [if_neg (by omega), if_neg (by omega), if_neg (by omega)]
      rfl
  entry_set_last_iff := by
    intro r v h
    obtain ⟨a, b, c, d, rfl⟩ := exists_of_length_four h
    exact ⟨congrArg UserAuthEntry.enabled, fun hv => congrArg (UserAuthEntry.mk a b c) hv⟩

theorem parse_sourceFormat (content : List Byte) : sourceFormat.parse content = authParse content :=
  rfl

theorem parse_roverFormat (content : List Byte) :
    roverFormat.parse content = roverAuthParse content := rfl

theorem parse_userFormat (content : List Byte) : userFormat.parse content = userAuthParse content :=
  rfl

/-! ### Settings of accounts -/

/-- The steps of a request in the file of rovers. -/
def roverSteps (live : SettingsState) (req : SettingsRequest) : List AccountStep :=
  stepsIn (live.config.strings .roverAuthFilename) roverTexts
    [roverAuthAdd req live.roverAuth, roverAuthRemove req, roverAuthSetEnabled req,
      roverAuthSetPassword req]

/-- The steps of a request in the file of administrators. -/
def userSteps (live : SettingsState) (req : SettingsRequest) : List AccountStep :=
  stepsIn (live.config.strings .userAuthFilename) userTexts
    [userAuthAdd req live.userAuth, userAuthRemove req, userAuthSetEnabled req,
      userAuthSetPassword req, userAuthSetRole req]

theorem accountSteps_eq (live : SettingsState) (req : SettingsRequest) :
    accountSteps live req = roverSteps live req ++ (userSteps live req ++
      stepsIn live.config.smtpAuthFile smtpTexts [smtpAuthSet req, smtpAuthRemove req]) := rfl

/-- An edit is about the fields that the file has. -/
def AccountFormat.Shaped {ε : Type} (fmt : AccountFormat ε) : FileEdit → Prop
  | .append fields => fields.length = fmt.nfields
  | .drop _ => True
  | .remove _ => True
  | .setField _ targetField _ => 0 < targetField ∧ targetField < fmt.nfields

theorem AccountFormat.fits_of_shaped {ε : Type} {fmt : AccountFormat ε} {edit : FileEdit}
    (hplain : edit.Plain) (hshaped : fmt.Shaped edit) : fmt.Fits edit := by
  cases edit with
  | append fields => exact ⟨hshaped, hplain.2⟩
  | drop key => trivial
  | remove key => trivial
  | setField key targetField newValue => exact ⟨hshaped.1, hshaped.2, hplain⟩

section

variable {ε : Type} {fmt : AccountFormat ε} {live : SettingsState} {req : SettingsRequest}

theorem shaped_removeAccount {key message : String} {edits : List FileEdit}
    (h : removeAccount req key message = some (.ok edits)) : ∀ edit ∈ edits, fmt.Shaped edit := by
  intro edit hedit
  rw [removeAccount] at h
  obtain ⟨v, -, h⟩ := Option.map_eq_some_iff.mp h
  split at h
  · rw [← Except.ok.inj h] at hedit
    rw [List.mem_singleton.mp hedit]
    trivial
  · contradiction

theorem shaped_setAccountField {userKey valueKey userMessage valueMessage : String}
    {valid : CString → Bool} {targetField : ℕ} (hpos : 0 < targetField)
    (hlt : targetField < fmt.nfields) {edits : List FileEdit}
    (h : setAccountField req userKey valueKey userMessage valueMessage valid targetField =
      some (.ok edits)) : ∀ edit ∈ edits, fmt.Shaped edit := by
  intro edit hedit
  rw [setAccountField] at h
  obtain ⟨user, -, h⟩ := Option.map_eq_some_iff.mp h
  split at h
  · contradiction
  · split at h
    · rw [← Except.ok.inj h] at hedit
      rw [List.mem_singleton.mp hedit]
      exact ⟨hpos, hlt⟩
    · contradiction

theorem shaped_roverAuthAdd {roverAuth : Option (List RoverAuthEntry)} {edits : List FileEdit}
    (h : roverAuthAdd req roverAuth = some (.ok edits)) :
    ∀ edit ∈ edits, roverFormat.Shaped edit := by
  intro edit hedit
  rw [roverAuthAdd] at h
  obtain ⟨user, -, h⟩ := Option.map_eq_some_iff.mp h
  obtain ⟨user', -, h⟩ := bind_eq_ok h
  obtain ⟨password, -, h⟩ := bind_eq_ok h
  split at h
  · contradiction
  · rw [← Except.ok.inj h] at hedit
    rw [List.mem_singleton.mp hedit]
    rfl

theorem shaped_userAuthAdd {userAuth : Option (List UserAuthEntry)} {edits : List FileEdit}
    (h : userAuthAdd req userAuth = some (.ok edits)) : ∀ edit ∈ edits, userFormat.Shaped edit := by
  intro edit hedit
  rw [userAuthAdd] at h
  obtain ⟨user, -, h⟩ := Option.map_eq_some_iff.mp h
  obtain ⟨user', -, h⟩ := bind_eq_ok h
  obtain ⟨password, -, h⟩ := bind_eq_ok h
  split at h
  · contradiction
  · split at h
    · contradiction
    · rw [← Except.ok.inj h] at hedit
      rw [List.mem_singleton.mp hedit]
      rfl

theorem shaped_roverSteps {e : AccountEdit} (he : .ok e ∈ roverSteps live req) :
    roverFormat.Shaped e.edit := by
  refine forall_stepsIn ?_ he
  simp only [List.forall_mem_cons, List.not_mem_nil, false_imp_iff, implies_true, and_true]
  exact ⟨fun _ h => shaped_roverAuthAdd h, fun _ h => shaped_removeAccount h,
    fun _ h => shaped_setAccountField (by decide) (by decide) h,
    fun _ h => shaped_setAccountField (by decide) (by decide) h⟩

theorem shaped_userSteps {e : AccountEdit} (he : .ok e ∈ userSteps live req) :
    userFormat.Shaped e.edit := by
  refine forall_stepsIn ?_ he
  simp only [List.forall_mem_cons, List.not_mem_nil, false_imp_iff, implies_true, and_true]
  exact ⟨fun _ h => shaped_userAuthAdd h, fun _ h => shaped_removeAccount h,
    fun _ h => shaped_setAccountField (by decide) (by decide) h,
    fun _ h => shaped_setAccountField (by decide) (by decide) h,
    fun _ h => shaped_setAccountField (by decide) (by decide) h⟩

end

theorem edited_iff {ε : Type} {fmt : AccountFormat ε} {env : FileEnv} {e : AccountEdit}
    {files : Files} (hplain : e.edit.Plain) (hshaped : fmt.Shaped e.edit)
    (haccepted : e.refusal env files = none) {content : List Byte}
    (hfile : files e.filename = some content) {entries : List ε}
    (hparse : fmt.parse content = some entries) :
    (e.effect files e.filename).bind fmt.parse = some (e.edit.onList fmt entries) ↔
      e.edit.Safe fmt content := by
  have heffect : e.effect files e.filename = some (e.edit.effect content) := by
    rw [AccountEdit.effect, Files.write, if_pos rfl, hfile, Option.getD_some]
  have hfound : e.edit.Found content := by
    cases hedit : e.edit with
    | append fields => trivial
    | drop key => trivial
    | remove key => trivial
    | setField key targetField newValue =>
      simp only [AccountEdit.refusal, hedit, hfile, Option.getD_some] at haccepted
      split at haccepted
      · contradiction
      · split at haccepted
        · contradiction
        · next hcopy => rwa [Option.isNone_iff_eq_none] at hcopy
  rw [heffect]
  exact AccountFormat.parse_effect_iff hparse (AccountFormat.fits_of_shaped hplain hshaped) hfound

/-! ### Accounts of sources -/

/-- The messages about the file of sources. There is none about a mountpoint that is not in it. -/
def sourceTexts : AccountTexts where
  cannotOpen := cstr "cannot open source_auth_file"
  cannotRewrite := cstr "cannot rewrite source_auth_file"
  notPresent := []

/-- The answer: a message, or the account. -/
inductive AuthSetAnswer
  | error (message : CString)
  | account (mountpoint user password : CString)
  deriving DecidableEq, Repr

/-- The account of a mountpoint takes the place of those that are there. -/
def authSetEdits (filename mountpoint user password : CString) : List AccountEdit :=
  [⟨filename, sourceTexts, .drop mountpoint⟩,
    ⟨filename, sourceTexts, .append [mountpoint, user, password]⟩]

/-- `api_auth_set_json`. What the reload that follows returns is not looked at. -/
def apiAuthSetJson (env : FileEnv) (filename : CString) (req : SettingsRequest) (files : Files) :
    Files × AuthSetAnswer :=
  match (req.get "mountpoint").filter (· ≠ []), (req.get "auth_user").filter (· ≠ []),
      (req.get "auth_password").filter (· ≠ []) with
  | some mountpoint, some user, some password =>
    if fieldIsSafe mountpoint ∧ fieldIsSafe user ∧ fieldIsSafe password then
      match Refusal.run (AccountEdit.refusal env) AccountEdit.effect
          (authSetEdits filename mountpoint user password) files with
      | (files, some message) => (files, .error message)
      | (files, none) => (files, .account mountpoint user password)
    else (files, .error (cstr "invalid characters in mountpoint, auth_user or auth_password"))
  | _, _, _ => (files, .error (cstr "mountpoint, auth_user and auth_password are required"))

theorem apiAuthSetJson_of_account {env : FileEnv} {filename : CString} {req : SettingsRequest}
    {files : Files} {mountpoint user password : CString}
    (h : (apiAuthSetJson env filename req files).2 = .account mountpoint user password) :
    (∀ f ∈ [mountpoint, user, password], Plain f) ∧
      Refusal.Accepted (AccountEdit.refusal env) AccountEdit.effect
        (authSetEdits filename mountpoint user password) files ∧
      (apiAuthSetJson env filename req files).1 =
        Refusal.after AccountEdit.effect (authSetEdits filename mountpoint user password)
          files := by
  unfold apiAuthSetJson at h ⊢
  split at h
  · next m u p hm hu hp =>
    split at h
    · next hsafe =>
      rw [if_pos hsafe]
      split at h
      · contradiction
      · next files' hrun =>
        obtain ⟨rfl, rfl, rfl⟩ := AuthSetAnswer.account.inj h
        have hplain {key : String} {v : CString} (hv : (req.get key).filter (· ≠ []) = some v)
            (hsafe : fieldIsSafe v = true) : Plain v :=
          plain_of_fieldIsSafe (req.nul _ _ (Option.filter_eq_some_iff.mp hv).1) hsafe
        obtain ⟨haccepted, hfiles⟩ := Refusal.run_eq_none_iff.mp hrun
        refine ⟨?_, haccepted, ?_⟩
        · simp only [List.forall_mem_cons, List.not_mem_nil, false_imp_iff, implies_true, and_true]
          exact ⟨hplain hm hsafe.1, hplain hu hsafe.2.1, hplain hp hsafe.2.2⟩
        · exact hfiles.symm
    · contradiction
  · contradiction

/-- The file of sources ends with a newline, or what follows the last one is an account of the
mountpoint, which is removed. -/
def AuthSetSafe (content : List Byte) (mountpoint : CString) : Prop :=
  (Terminated LF content ∨
    ∃ l, (lines LF content).getLast? = some l ∧ HasField colon 0 mountpoint l) ∧
  mountpoint.head? ≠ some hash

theorem authSet_iff {env : FileEnv} {filename : CString} {req : SettingsRequest} {files : Files}
    {mountpoint user password : CString}
    (h : (apiAuthSetJson env filename req files).2 = .account mountpoint user password)
    {content : List Byte} (hfile : files filename = some content) {entries : List AuthEntry}
    (hparse : authParse content = some entries) :
    ((apiAuthSetJson env filename req files).1 filename).bind authParse =
        some ((entries.filter fun e => e.key ≠ mountpoint) ++ [⟨mountpoint, user, password⟩]) ↔
      AuthSetSafe content mountpoint := by
  obtain ⟨hplain, -, hfiles⟩ := apiAuthSetJson_of_account h
  have hparse : sourceFormat.parse content = some entries := hparse
  have hremoved : sourceFormat.parse (removeMatchingLines content colon 0 mountpoint).1 =
      some (entries.filter fun e => e.key ≠ mountpoint) :=
    AccountFormat.parse_removed hparse mountpoint
  have hcontent : (apiAuthSetJson env filename req files).1 filename =
      some ((removeMatchingLines content colon 0 mountpoint).1 ++
        ([colon].intercalate [mountpoint, user, password] ++ [LF])) := by
    simp only [hfiles, Refusal.after, authSetEdits, List.foldl_cons, List.foldl_nil,
      AccountEdit.effect, Files.write, if_true, hfile, Option.getD_some, FileEdit.effect]
  rw [hcontent, AuthSetSafe, ← terminated_filter_iff]
  exact AccountFormat.parse_append_iff hremoved rfl hplain

/-- **When an edited file is read as the edited list.** For each setting of accounts, and for the
account of a mountpoint. -/
theorem accounts_edited_iff (env : FileEnv) (live : SettingsState) (req : SettingsRequest)
    (files : Files) :
    (∀ e : AccountEdit, .ok e ∈ roverSteps live req → e.refusal env files = none →
      ∀ content entries, files e.filename = some content → roverAuthParse content = some entries →
        ((e.effect files e.filename).bind roverAuthParse =
            some (e.edit.onList roverFormat entries) ↔
          e.edit.Safe roverFormat content)) ∧
    (∀ e : AccountEdit, .ok e ∈ userSteps live req → e.refusal env files = none →
      ∀ content entries, files e.filename = some content → userAuthParse content = some entries →
        ((e.effect files e.filename).bind userAuthParse = some (e.edit.onList userFormat entries) ↔
          e.edit.Safe userFormat content)) ∧
    ∀ filename mountpoint user password,
      (apiAuthSetJson env filename req files).2 = .account mountpoint user password →
      ∀ content entries, files filename = some content → authParse content = some entries →
        (((apiAuthSetJson env filename req files).1 filename).bind authParse =
            some ((entries.filter fun e => e.key ≠ mountpoint) ++ [⟨mountpoint, user, password⟩]) ↔
          AuthSetSafe content mountpoint) := by
  have hplain : ∀ e : AccountEdit, .ok e ∈ accountSteps live req → e.edit.Plain :=
    fun e he => plain_accountSteps (.ok e) he
  refine ⟨fun e he haccepted content entries hfile hparse => ?_,
    fun e he haccepted content entries hfile hparse => ?_,
    fun filename mountpoint user password h content entries hfile hparse =>
      authSet_iff h hfile hparse⟩
  · exact edited_iff (hplain e (List.mem_append_left _ he)) (shaped_roverSteps he) haccepted hfile
      hparse
  · exact edited_iff (hplain e (List.mem_append_right _ (List.mem_append_left _ he)))
      (shaped_userSteps he) haccepted hfile hparse

/-- A request for accounts: of a rover, of an administrator who is there, and of a mountpoint. -/
def accountsRequest (rover mountpoint : CString) (h : 0 ∉ rover ∧ 0 ∉ mountpoint) :
    SettingsRequest :=
  .ofList [(cstr "rover_auth.add.user", rover), (cstr "rover_auth.add.password", cstr "two"),
    (cstr "user_auth.set_role.user", cstr "ann"), (cstr "user_auth.set_role.value", cstr "admin"),
    (cstr "mountpoint", mountpoint), (cstr "auth_user", cstr "base"),
    (cstr "auth_password", cstr "four")] (by
      simp only [List.forall_mem_cons, List.not_mem_nil, false_imp_iff, implies_true, and_true]
      exact ⟨h.1, by decide, by decide, by decide, h.2, by decide, by decide⟩)

/-- Three files of one account each. The file of rovers ends with this. -/
def accountFiles (roverEnd : List Byte) : Files := fun name =>
  if name = cstr "rover.auth" then some (cstr "field:one:Y" ++ roverEnd)
  else if name = cstr "user.auth" then some (cstr "ann:three:viewer:Y" ++ [LF])
  else if name = cstr "source.auth" then some (cstr "M:base:three" ++ [LF])
  else none

/-- The caster that has read them. -/
def accountState (roverEnd : List Byte) : SettingsState :=
  let state := SettingsState.oneRover (accountFiles roverEnd) none
  { state with
    config := { state.config with
      strings := fun f => match f with
        | .userAuthFilename => some (cstr "user.auth")
        | f => state.config.strings f } }

/-- What the system allows, when it allows everything. -/
def anyFile : FileEnv := ⟨fun _ => true, fun _ => true⟩

/-- The edit that adds a rover. -/
def roverAppend (name : CString) : AccountEdit :=
  ⟨cstr "rover.auth", roverTexts, .append [name, cstr "two", cstr "Y"]⟩

def userSetRole : AccountEdit :=
  ⟨cstr "user.auth", userTexts, .setField (cstr "ann") 2 (cstr "admin")⟩

theorem roverSteps_accountsRequest :
    roverSteps (accountState [LF]) (accountsRequest (cstr "survey") (cstr "M") (by decide)) =
      [.ok (roverAppend (cstr "survey"))] := rfl

theorem userSteps_accountsRequest :
    userSteps (accountState [LF]) (accountsRequest (cstr "survey") (cstr "M") (by decide)) =
      [.ok userSetRole] := rfl

theorem accounts_edited_survey :
    ((roverAppend (cstr "survey")).effect (accountFiles [LF]) (cstr "rover.auth")).bind
        roverAuthParse =
      some [⟨cstr "field", cstr "one", true⟩, ⟨cstr "survey", cstr "two", true⟩] ∧
    (userSetRole.effect (accountFiles [LF]) (cstr "user.auth")).bind userAuthParse =
      some [⟨cstr "ann", cstr "three", cstr "admin", true⟩] ∧
    ((apiAuthSetJson anyFile (cstr "source.auth") (accountsRequest (cstr "survey") (cstr "M")
        (by decide)) (accountFiles [LF])).1 (cstr "source.auth")).bind authParse =
      some [⟨cstr "M", cstr "base", cstr "four"⟩] := by
  obtain ⟨hrover, huser, hsource⟩ := accounts_edited_iff anyFile (accountState [LF])
    (accountsRequest (cstr "survey") (cstr "M") (by decide)) (accountFiles [LF])
  refine ⟨?_, ?_, ?_⟩
  · refine (hrover (roverAppend (cstr "survey")) ?_ ?_ (cstr "field:one:Y" ++ [LF])
      [⟨cstr "field", cstr "one", true⟩] ?_ ?_).mpr ?_
    · rw [roverSteps_accountsRequest]
      exact List.mem_singleton_self _
    · decide
    · decide
    · decide
    · exact ⟨by decide, by decide⟩
  · have haccounts : accounts (lines LF (cstr "ann:three:viewer:Y" ++ [LF])) =
        [[cstr "ann", cstr "three", cstr "viewer", cstr "Y"]] := by decide
    refine (huser userSetRole ?_ ?_ (cstr "ann:three:viewer:Y" ++ [LF])
      [⟨cstr "ann", cstr "three", cstr "viewer", true⟩] ?_ ?_).mpr ?_
    · rw [userSteps_accountsRequest]
      exact List.mem_singleton_self _
    · decide
    · decide
    · decide
    · change userFormat.Copyable (cstr "ann") 2 _
      rw [haccounts, AccountFormat.Copyable]
      exact List.forall_mem_singleton.mpr rfl
  · exact (hsource (cstr "source.auth") (cstr "M") (cstr "base") (cstr "four") (by decide)
      (cstr "M:base:three" ++ [LF]) [⟨cstr "M", cstr "base", cstr "three"⟩] (by decide)
      (by decide)).mpr ⟨Or.inl (by decide), by decide⟩

/-- **The new account is lost.** A file without a newline at its end cannot be read any more, and a
rover whose name begins with `#` is not in the file. -/
theorem not_accounts_edited_unterminated :
    (∃ env live req files content entries, ∃ e : AccountEdit,
      .ok e ∈ roverSteps live req ∧ e.refusal env files = none ∧
      files e.filename = some content ∧ roverAuthParse content = some entries ∧
      (e.effect files e.filename).bind roverAuthParse = none) ∧
    ∃ env live req files content entries, ∃ e : AccountEdit,
      .ok e ∈ roverSteps live req ∧ e.refusal env files = none ∧
      files e.filename = some content ∧ roverAuthParse content = some entries ∧
      (e.effect files e.filename).bind roverAuthParse ≠
        some (e.edit.onList roverFormat entries) := by
  refine ⟨⟨anyFile, accountState [], accountsRequest (cstr "survey") (cstr "M") (by decide),
    accountFiles [], cstr "field:one:Y", [⟨cstr "field", cstr "one", true⟩],
    roverAppend (cstr "survey"), ?_, by decide, by decide, by decide, by decide⟩,
    anyFile, accountState [LF], accountsRequest (cstr "#survey") (cstr "M") (by decide),
    accountFiles [LF], cstr "field:one:Y" ++ [LF], [⟨cstr "field", cstr "one", true⟩],
    roverAppend (cstr "#survey"), ?_, by decide, by decide, by decide, by decide⟩
  · have hsteps : roverSteps (accountState []) (accountsRequest (cstr "survey") (cstr "M")
        (by decide)) = [.ok (roverAppend (cstr "survey"))] := rfl
    rw [hsteps]
    exact List.mem_singleton_self _
  · have hsteps : roverSteps (accountState [LF]) (accountsRequest (cstr "#survey") (cstr "M")
        (by decide)) = [.ok (roverAppend (cstr "#survey"))] := rfl
    rw [hsteps]
    exact List.mem_singleton_self _

end ChilopodCaster
