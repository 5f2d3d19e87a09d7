import ChilopodCaster.Http

/-!
# Accounts

Passwords of sources, rovers and administrators (`auth.c` and `ntripsrv.c`). A list of accounts is
searched from its start, and the first line with the key decides.

## Main definitions

* `checkPassword` — `check_password`, for the source of a mountpoint
* `checkRoverPassword`, `roverAuthExemptPeer` — for the client of a mountpoint
* `resolveAdminRole` — `resolve_admin_role`, for `/adm`

## Main results

* `exists_entry_of_checkRoverPassword` — who receives a stream has an enabled account
* `roleSound_iff` — exactly when a role of the console comes from an account of the console
-/

namespace ChilopodCaster

/-- `struct auth_entry`; the key is a mountpoint. -/
structure AuthEntry where
  key : CString
  user : CString
  password : CString
  deriving DecidableEq, Repr

/-- `struct rover_auth_entry`. -/
structure RoverAuthEntry where
  user : CString
  password : CString
  enabled : Bool
  deriving DecidableEq, Repr

/-- `struct user_auth_entry`. -/
structure UserAuthEntry where
  user : CString
  password : CString
  role : CString
  enabled : Bool
  deriving DecidableEq, Repr

/-- `auth_lookup`. -/
def authLookup (auth : List AuthEntry) (key : CString) : Option AuthEntry :=
  auth.find? (·.key = key)

/-- `rover_auth_lookup`. -/
def roverAuthLookup (auth : List RoverAuthEntry) (user : CString) : Option RoverAuthEntry :=
  auth.find? (·.user = user)

/-- `user_auth_lookup`. -/
def userAuthLookup (auth : List UserAuthEntry) (user : CString) : Option UserAuthEntry :=
  auth.find? (·.user = user)

/-- What `check_password` returns. -/
inductive CheckPw
  | mountpointInvalid
  | mountpointValid
  | mountpointWildcard
  deriving DecidableEq, Repr

/-- `check_password`, with the field `source_auth` of the configuration. Sources of the first
version of the protocol give no user. -/
def checkPassword (sourceAuth : Option (List AuthEntry)) (mountpoint : CString)
    (user : Option CString) (passwd : CString) : CheckPw :=
  match sourceAuth with
  | none => .mountpointInvalid
  | some auth =>
    match authLookup auth mountpoint with
    | some e =>
      if (user = none ∨ user = some e.user) ∧ e.password = passwd then .mountpointValid
      else .mountpointInvalid
    | none =>
      match authLookup auth (cstr "*") with
      | some e => if e.password = passwd then .mountpointWildcard else .mountpointInvalid
      | none => .mountpointInvalid

/-- `check_rover_password`, with the field `rover_auth` of the configuration. -/
def checkRoverPassword (roverAuth : Option (List RoverAuthEntry)) (user passwd : Option CString) :
    Bool :=
  match roverAuth, user, passwd with
  | some auth, some user, some passwd =>
    match roverAuthLookup auth user with
    | some e => e.enabled ∧ e.password = passwd
    | none => false
  | _, _, _ => false

/-- `rover_auth_exempt_peer`. -/
def roverAuthExemptPeer (remoteAddr : CString) : Bool :=
  remoteAddr = cstr "127.0.0.1" ∨ remoteAddr = cstr "::1"

/-- The user and the password open an enabled account. -/
theorem exists_entry_of_checkRoverPassword {roverAuth : Option (List RoverAuthEntry)}
    {user passwd : Option CString} (h : checkRoverPassword roverAuth user passwd = true) :
    ∃ auth e, roverAuth = some auth ∧ e ∈ auth ∧ e.enabled = true ∧ user = some e.user ∧
      passwd = some e.password := by
  unfold checkRoverPassword at h
  split at h
  · next auth u p =>
    split at h
    · next e he =>
      obtain ⟨henabled, rfl⟩ := of_decide_eq_true h
      rw [roverAuthLookup] at he
      have huser := List.find?_some he
      rw [decide_eq_true_iff] at huser
      exact ⟨auth, e, rfl, List.mem_of_find?_eq_some he, henabled, by rw [huser], rfl⟩
    · contradiction
  · contradiction

/-- `enum admin_role`. -/
inductive AdminRole
  | roleNone
  | roleViewer
  | roleAdmin
  deriving DecidableEq, Repr

/-- `resolve_admin_role`, with the fields `source_auth`, `admin_user` and `user_auth` of the
configuration. -/
def resolveAdminRole (sourceAuth : Option (List AuthEntry)) (adminUser : CString)
    (userAuth : Option (List UserAuthEntry)) (user password : Option CString) : AdminRole :=
  match user, password with
  | some user, some password =>
    if checkPassword sourceAuth adminUser (some user) password ≠ .mountpointInvalid then .roleAdmin
    else
      match userAuth.bind fun auth => userAuthLookup auth user with
      | some e =>
        if e.enabled ∧ e.password = password then
          if e.role = cstr "admin" then .roleAdmin else .roleViewer
        else .roleNone
      | none => .roleNone
  | _, _ => .roleNone

/-! ### Who becomes an administrator -/

/-- The line of the source accounts that stands under `admin_user` has this user and this
password. -/
def OpensAdminLine (sourceAuth : Option (List AuthEntry)) (adminUser user password : CString) :
    Prop :=
  ∃ e, (sourceAuth.bind fun auth => authLookup auth adminUser) = some e ∧ e.user = user ∧
    e.password = password

/-- An enabled console account has this user and this password. -/
def OpensConsole (userAuth : Option (List UserAuthEntry)) (user password : CString)
    (role : CString → Prop) : Prop :=
  ∃ auth e, userAuth = some auth ∧ e ∈ auth ∧ e.enabled = true ∧ e.user = user ∧
    e.password = password ∧ role e.role

/-- No line stands under `admin_user`, and the line of the stations that are not registered has
this password. -/
def OpensWildcard (sourceAuth : Option (List AuthEntry)) (adminUser password : CString) : Prop :=
  ∃ auth e, sourceAuth = some auth ∧ authLookup auth adminUser = none ∧
    authLookup auth (cstr "*") = some e ∧ e.password = password

/-- The role that `resolve_admin_role` gives is one that some account has. -/
def RoleSound (sourceAuth : Option (List AuthEntry)) (adminUser : CString)
    (userAuth : Option (List UserAuthEntry)) (user password : Option CString) : Prop :=
  (resolveAdminRole sourceAuth adminUser userAuth user password = .roleAdmin →
    ∃ u p, user = some u ∧ password = some p ∧ (OpensAdminLine sourceAuth adminUser u p ∨
      OpensConsole userAuth u p (· = cstr "admin"))) ∧
  (resolveAdminRole sourceAuth adminUser userAuth user password = .roleViewer →
    ∃ u p, user = some u ∧ password = some p ∧ OpensConsole userAuth u p fun _ => True)

/-- The two ways through the password check of a mountpoint. -/
theorem checkPassword_ne_invalid_iff (sourceAuth : Option (List AuthEntry))
    (mountpoint user passwd : CString) :
    checkPassword sourceAuth mountpoint (some user) passwd ≠ .mountpointInvalid ↔
      OpensAdminLine sourceAuth mountpoint user passwd ∨
        OpensWildcard sourceAuth mountpoint passwd := by
  rcases sourceAuth with _ | auth
  · simp [checkPassword, OpensAdminLine, OpensWildcard]
  · rcases he : authLookup auth mountpoint with _ | e
    · rcases hw : authLookup auth (cstr "*") with _ | w
      · simp [checkPassword, OpensAdminLine, OpensWildcard, he, hw]
      · simp [checkPassword, OpensAdminLine, OpensWildcard, he, hw]
    · simp [checkPassword, OpensAdminLine, OpensWildcard, he, eq_comm]

theorem not_opensAdminLine_of_opensWildcard {sourceAuth : Option (List AuthEntry)}
    {adminUser password : CString} (h : OpensWildcard sourceAuth adminUser password)
    (user password' : CString) : ¬ OpensAdminLine sourceAuth adminUser user password' := by
  obtain ⟨auth, w, rfl, hnone, -, -⟩ := h
  rintro ⟨e, he, -, -⟩
  rw [Option.bind_some, hnone] at he
  contradiction

/-- An account that the lookup gives is one of the list. -/
theorem opensConsole_of_userAuthLookup {userAuth : Option (List UserAuthEntry)} {user : CString}
    {e : UserAuthEntry} (he : (userAuth.bind fun auth => userAuthLookup auth user) = some e)
    (henabled : e.enabled = true) {role : CString → Prop} (hrole : role e.role) :
    OpensConsole userAuth user e.password role := by
  obtain ⟨auth, hauth, hfind⟩ := Option.bind_eq_some_iff.mp he
  rw [userAuthLookup] at hfind
  have huser := List.find?_some hfind
  rw [decide_eq_true_iff] at huser
  exact ⟨auth, e, hauth, List.mem_of_find?_eq_some hfind, henabled, huser, rfl, hrole⟩

/-- What the console accounts alone give is sound. -/
theorem roleSound_of_invalid {sourceAuth : Option (List AuthEntry)} {adminUser : CString}
    {userAuth : Option (List UserAuthEntry)} {user password : CString}
    (h : checkPassword sourceAuth adminUser (some user) password = .mountpointInvalid) :
    RoleSound sourceAuth adminUser userAuth (some user) (some password) := by
  unfold RoleSound resolveAdminRole
  simp only [h, ne_eq, not_true_eq_false, if_false]
  split
  · next e he =>
    split
    · next hopen =>
      obtain ⟨henabled, rfl⟩ := hopen
      split
      · next hrole =>
        exact ⟨fun _ => ⟨user, e.password, rfl, rfl,
          .inr (opensConsole_of_userAuthLookup he henabled hrole)⟩, fun h => by contradiction⟩
      · exact ⟨fun h => by contradiction, fun _ => ⟨user, e.password, rfl, rfl,
          opensConsole_of_userAuthLookup he henabled trivial⟩⟩
    · exact ⟨fun h => by contradiction, fun h => by contradiction⟩
  · exact ⟨fun h => by contradiction, fun h => by contradiction⟩

/-- **A role comes from an account of its own, unless the line of the unregistered stations opens
the console.** With no line under `admin_user`, the password that any station may use makes its
bearer an administrator under every name. -/
theorem roleSound_iff (sourceAuth : Option (List AuthEntry)) (adminUser : CString)
    (userAuth : Option (List UserAuthEntry)) (user password : Option CString) :
    RoleSound sourceAuth adminUser userAuth user password ↔
      ∀ u p, user = some u → password = some p → OpensWildcard sourceAuth adminUser p →
        OpensConsole userAuth u p (· = cstr "admin") := by
  rcases user with _ | u
  · simp [RoleSound, resolveAdminRole]
  rcases password with _ | p
  · simp [RoleSound, resolveAdminRole]
  by_cases hvalid : checkPassword sourceAuth adminUser (some u) p = .mountpointInvalid
  · refine ⟨fun _ u' p' hu hp hwild => ?_, fun _ => roleSound_of_invalid hvalid⟩
    obtain rfl := Option.some.inj hp
    exact absurd hvalid ((checkPassword_ne_invalid_iff sourceAuth adminUser u p).mpr (.inr hwild))
  · have hadmin : resolveAdminRole sourceAuth adminUser userAuth (some u) (some p) = .roleAdmin :=
      if_pos hvalid
    rw [RoleSound, hadmin]
    constructor
    · rintro ⟨hsound, -⟩ u' p' hu hp hwild
      obtain ⟨u'', p'', hu', hp', hline | hconsole⟩ := hsound rfl
      · exact absurd hline (not_opensAdminLine_of_opensWildcard hwild u'' p'')
      · rw [hu] at hu'
        rw [hp] at hp'
        obtain ⟨rfl, rfl⟩ := And.intro (Option.some.inj hu') (Option.some.inj hp')
        exact hconsole
    · intro hwild
      refine ⟨fun _ => ⟨u, p, rfl, rfl, ?_⟩, fun h => by contradiction⟩
      rcases (checkPassword_ne_invalid_iff sourceAuth adminUser u p).mp hvalid with hline | hw
      · exact .inl hline
      · exact .inr (hwild u p rfl rfl hw)

/-- A caster with only the line `*::shared` and no console accounts lets `intruder` administrate
it with the password `shared`. -/
theorem roleSound_not_wildcard :
    ¬ RoleSound (some [⟨cstr "*", [], cstr "shared"⟩]) (cstr "admin") none
      (some (cstr "intruder")) (some (cstr "shared")) := by
  rintro ⟨hadmin, -⟩
  obtain ⟨u, p, -, -, ⟨e, he, -⟩ | ⟨auth, e, hauth, -⟩⟩ := hadmin (by decide)
  · have hnone : ((some [⟨cstr "*", [], cstr "shared"⟩] : Option (List AuthEntry)).bind
        fun auth => authLookup auth (cstr "admin")) = none := by decide
    rw [hnone] at he
    contradiction
  · contradiction

end ChilopodCaster
