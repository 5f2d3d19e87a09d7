import ChilopodCaster.Server

/-!
# What answers a request

What answers a request changes few fields of the session: the others are those the headers gave it.
Every invariant of a connection starts from there.

The handlers of `/adm` and of files only decide what to do by what they read in the request and in
the caster: an error, a page, or a call whose content is computed at once or by a job. This decision
is a *plan*, and nothing else has to be known of these handlers.

## Main definitions

* `Outcome.All` — what holds of the connection after a round, and of the fault if there is one
* `Answered` — the connection after a request was answered
* `namesItself` — a request to drop sessions is about the one it comes from
* `Plan` — what a handler has decided to do

## Main results

* `deferredOutput_cases` — what a deferred call can do
* `exists_plan_admsrv` — a call of `/adm` follows a plan
* `dispatch_answered` — a request is answered without changing anything else
-/

namespace ChilopodCaster

namespace Ntripsrv

open ChunkDecode

variable {W G : Type} {c : Caster W G} {config : Config} {s s' s'' : Server W G}

/-! ### Outcomes -/

/-- The connection after a round has a property, or the fault is one of those allowed. -/
def Outcome.All (allowed : Fault → Prop) (P : Server W G → Prop) : Outcome W G → Prop
  | .inl s => P s
  | .inr (.ok (s, _)) => P s
  | .inr (.error f) => allowed f

/-- The same for what a handler returns. -/
def okAll {α : Type} (allowed : Fault → Prop) (P : α → Prop) : Except Fault α → Prop
  | .ok a => P a
  | .error f => allowed f

variable {allowed allowed' : Fault → Prop} {P Q : Server W G → Prop}

theorem Outcome.All.imp {o : Outcome W G} (h : o.All allowed P)
    (hallowed : ∀ f, allowed f → allowed' f) (hPQ : ∀ s, P s → Q s) : o.All allowed' Q := by
  match o, h with
  | .inl s, h => exact hPQ s h
  | .inr (.ok (s, _)), h => exact hPQ s h
  | .inr (.error f), h => exact hallowed f h

theorem Outcome.All.and {o : Outcome W G} (hP : o.All allowed P) (hQ : o.All allowed' Q) :
    o.All allowed fun s => P s ∧ Q s := by
  match o, hP, hQ with
  | .inl s, hP, hQ => exact ⟨hP, hQ⟩
  | .inr (.ok (s, _)), hP, hQ => exact ⟨hP, hQ⟩
  | .inr (.error f), hP, _ => exact hP

theorem Outcome.All.mono {o : Outcome W G} (h : o.All allowed P) (hPQ : ∀ s, P s → Q s) :
    o.All allowed Q :=
  h.imp (fun _ => id) hPQ

@[simp] theorem all_leave {err : ℕ} : (leave s err).All allowed P ↔ P s := Iff.rfl

@[simp] theorem all_goOn {h : Handled W G} : (goOn h).All allowed P ↔ P h.s := by
  rw [goOn]
  split <;> rfl

@[simp] theorem all_inl : Outcome.All allowed P (.inl s) ↔ P s := Iff.rfl

@[simp] theorem all_ok {l : Leave} : Outcome.All allowed P (.inr (.ok (s, l))) ↔ P s := Iff.rfl

@[simp] theorem all_error {f : Fault} :
    Outcome.All allowed P (.inr (.error f) : Outcome W G) ↔ allowed f := Iff.rfl

@[simp] theorem okAll_ok {α : Type} {P : α → Prop} {a : α} : okAll allowed P (.ok a) ↔ P a :=
  Iff.rfl

@[simp] theorem okAll_error {α : Type} {P : α → Prop} {f : Fault} :
    okAll allowed P (.error f) ↔ allowed f := Iff.rfl

theorem okAll.imp {α : Type} {P Q : α → Prop} {o : Except Fault α} (h : okAll allowed P o)
    (hallowed : ∀ f, allowed f → allowed' f) (hPQ : ∀ a, P a → Q a) : okAll allowed' Q o := by
  cases o with
  | ok a => exact hPQ a h
  | error f => exact hallowed f h

theorem okAll.mono {α : Type} {P Q : α → Prop} {o : Except Fault α} (h : okAll allowed P o)
    (hPQ : ∀ a, P a → Q a) : okAll allowed Q o :=
  h.imp (fun _ => id) hPQ

theorem okAll_map {α β : Type} {P : β → Prop} {f : α → β} {o : Except Fault α} :
    okAll allowed P (o.map f) ↔ okAll allowed (fun a => P (f a)) o := by
  cases o <;> rfl

/-- The connection after a round, with the error if the loop is left, has a property. -/
def Outcome.Ends (P : Server W G → ℕ → Prop) : Outcome W G → Prop
  | .inl s => P s 0
  | .inr (.ok (s, l)) => P s l.err
  | .inr (.error _) => True

theorem Outcome.Ends.mono {P Q : Server W G → ℕ → Prop} {o : Outcome W G} (h : o.Ends P)
    (hPQ : ∀ s err, P s err → Q s err) : o.Ends Q := by
  match o, h with
  | .inl s, h => exact hPQ s 0 h
  | .inr (.ok (s, l)), h => exact hPQ s l.err h
  | .inr (.error f), _ => trivial

/-- What is known of the connection with the error, and without it. -/
theorem Outcome.Ends.and_all {P R : Server W G → ℕ → Prop} {o : Outcome W G} (h : o.Ends P)
    (hQ : o.All allowed Q) (hR : ∀ s err, P s err → Q s → R s err) : o.Ends R := by
  match o, h, hQ with
  | .inl s, h, hQ => exact hR s 0 h hQ
  | .inr (.ok (s, l)), h, hQ => exact hR s l.err h hQ
  | .inr (.error f), _, _ => trivial

theorem Outcome.Ends.all {P : Server W G → ℕ → Prop} {o : Outcome W G} (h : o.Ends P)
    (hPQ : ∀ s err, P s err → Q s) : o.All (fun _ => True) Q := by
  match o, h with
  | .inl s, h => exact hPQ s 0 h
  | .inr (.ok (s, l)), h => exact hPQ s l.err h
  | .inr (.error f), _ => trivial

theorem Outcome.All.ends {R : Server W G → ℕ → Prop} {o : Outcome W G} (h : o.All allowed P)
    (hPR : ∀ s err, P s → R s err) : o.Ends R := by
  match o, h with
  | .inl s, h => exact hPR s 0 h
  | .inr (.ok (s, l)), h => exact hPR s l.err h
  | .inr (.error f), _ => trivial

/-- The connection if there is another round, how the loop is left, and the fault. -/
def Outcome.Parts (allowed : Fault → Prop) (inv : Server W G → Prop)
    (left : Server W G → Leave → Prop) : Outcome W G → Prop
  | .inl s => inv s
  | .inr (.ok (s, l)) => left s l
  | .inr (.error f) => allowed f

theorem Outcome.All.parts {o : Outcome W G} (h : o.All allowed P) :
    o.Parts allowed P fun s _ => P s := by
  match o, h with
  | .inl s, h => exact h
  | .inr (.ok (s, l)), h => exact h
  | .inr (.error f), h => exact h

theorem Outcome.Ends.parts {R : Server W G → ℕ → Prop} {o : Outcome W G} (h : o.Ends R)
    (hR : ∀ s, R s 0 → P s) : o.Parts (fun _ => True) P fun s l => R s l.err := by
  match o, h with
  | .inl s, h => exact hR s h
  | .inr (.ok (s, l)), h => exact h
  | .inr (.error f), _ => trivial

theorem ends_goOn {P : Server W G → ℕ → Prop} {h : Handled W G} :
    (goOn h).Ends P ↔ P h.s h.err := by
  rw [goOn]
  split
  · next herr => rw [herr]; rfl
  · rfl

/-! ### What answers a request -/

/-- The connection `s'` is `s` after a request was answered: only the state of the session, its
version, whether it is kept, its mountpoint, the rest of the caster, the jobs and the log have
changed. -/
def Answered (s s' : Server W G) : Prop :=
  s' = { s with
    st := { s.st with
      state := s'.st.state
      clientVersion := s'.st.clientVersion
      connectionKeepalive := s'.st.connectionKeepalive
      sourceVirtual := s'.st.sourceVirtual
      mountpoint := s'.st.mountpoint }
    w := s'.w
    jobs := s'.jobs
    log := s'.log }

theorem Answered.refl (s : Server W G) : Answered s s := rfl

theorem Answered.trans (h : Answered s s') (h' : Answered s' s'') : Answered s s'' := by
  rw [Answered] at h h' ⊢
  rw [h', h]

theorem Answered.after (h' : Answered s' s'') (h : Answered s s') : Answered s s'' := h.trans h'

theorem Answered.ipcount (h : Answered s s') : s'.ipcount = s.ipcount := by rw [h]

theorem Answered.peer (h : Answered s s') : s'.st.peer = s.st.peer := by rw [h]

theorem Answered.httpArgs (h : Answered s s') : s'.st.httpArgs = s.st.httpArgs := by rw [h]

theorem Answered.toSession (h : Answered s s') :
    s'.st.toSession = { s.st.toSession with state := s'.st.state } := by
  conv => lhs; rw [h]

theorem answered_forceHttp (s : Server W G) : Answered s s.forceHttp := rfl

theorem answered_setState (s : Server W G) (state : SessionState) :
    Answered s (s.setState state) := rfl

theorem answered_sendSourcetable (c : Caster W G) (s : Server W G) :
    Answered s (sendSourcetable c s).1 := by
  rw [sendSourcetable]
  split <;> rfl

theorem answered_sendResultOk (s : Server W G) (mimeType : Option CString) (m : Option Content) :
    Answered s (sendResultOk s mimeType m) := by
  unfold sendResultOk
  split <;> rfl

theorem state_ntripDecrefEnd (st : Session) : (ntripDecrefEnd st).state = .ntripEnd := by
  rw [ntripDecrefEnd]
  split
  · assumption
  · split <;> rfl

theorem state_decrefEnd (s : Server W G) : (decrefEnd s).st.state = .ntripEnd :=
  state_ntripDecrefEnd s.st.toSession

/-- The request is a `POST` to `/adm/api/v1/drop` that names its own session. -/
def namesItself (c : Caster W G) (config : Config) (s : Server W G) : Bool :=
  match s.st.httpArgs with
  | [method, uri, _] =>
    method = cstr "POST" ∧ uri = cstr "/adm/api/v1/drop" ∧
      (hashFromUrlencoding (s.st.content.map toCString)).any fun hash =>
        c.dropsItself s.w ⟨some hash, none, s.st.user, hashRole config s.st hash⟩
  | _ => false

/-- The only fault of what answers a request: without threads, a session that drops itself. -/
def DropsItself (c : Caster W G) (config : Config) (s : Server W G) (f : Fault) : Prop :=
  f = .freedSession ∧ c.threads = false ∧ namesItself c config s = true

/-- Where a session is sent after the reply of a deferred call. -/
def afterReply (st : NtripState G) : SessionState :=
  if st.connectionKeepalive ∧ st.receivedKeepalive then .waitHttpMethod else .waitClose

/-- What a deferred call can do. -/
theorem deferredOutput_cases {contentCb : ContentCb} {req : Request}
    (h : deferredOutput c s contentCb req = .ok s') :
    (s.st.state = .ntripEnd ∧ ∃ w, s' = { s with w := w }) ∨
      (s.st.state ≠ .ntripEnd ∧ c.threads = true ∧ contentCb = .drop ∧
        ∃ w, s' = decrefEnd { s with w := w }) ∨
      (s.st.state ≠ .ntripEnd ∧ ∃ answer : Answer W, answer = c.contentCb contentCb s.w req ∧
        s' = (sendServerReply { s with w := answer.w } answer.status [] none answer.m).setState
          (afterReply s.st)) := by
  rw [deferredOutput] at h
  dsimp only at h
  split at h
  · contradiction
  · next hfault =>
    by_cases hend : s.st.state = .ntripEnd
    · have hdrops : ¬ (contentCb = .drop ∧ s.st.state ≠ .ntripEnd ∧
          c.dropsItself s.w req = true) := fun hd => hd.2.1 hend
      rw [if_neg hdrops, if_neg (fun hs => hs hend)] at h
      exact .inl ⟨hend, _, (Except.ok.inj h).symm⟩
    · by_cases hdrops : contentCb = .drop ∧ s.st.state ≠ .ntripEnd ∧ c.dropsItself s.w req = true
      · have hthreads : c.threads = true := by
          by_contra hthreads
          exact hfault ⟨hdrops, hthreads⟩
        rw [if_pos hdrops, if_neg (fun hs => hs (state_decrefEnd _))] at h
        exact .inr (.inl ⟨hend, hthreads, hdrops.1, _, (Except.ok.inj h).symm⟩)
      · rw [if_neg hdrops, if_pos hend] at h
        exact .inr (.inr ⟨hend, _, rfl, (Except.ok.inj h).symm⟩)

/-- The call is one to drop sessions, of a caster without threads, and names its own session. -/
def CallsDrop (c : Caster W G) (s : Server W G) (contentCb : ContentCb) (req : Request)
    (f : Fault) : Prop :=
  f = .freedSession ∧ c.threads = false ∧ contentCb = .drop ∧ c.dropsItself s.w req = true

theorem deferredOutput_fault {contentCb : ContentCb} {req : Request} {f : Fault}
    (h : deferredOutput c s contentCb req = .error f) : CallsDrop c s contentCb req f := by
  rw [deferredOutput] at h
  dsimp only at h
  split at h
  · next hdrops =>
    obtain rfl := Except.error.inj h
    exact ⟨rfl, Bool.eq_false_iff.mpr hdrops.2, hdrops.1.1, hdrops.1.2.2⟩
  · split at h <;> split at h <;> contradiction

theorem deferredOutput_answered {contentCb : ContentCb} {req : Request}
    (h : contentCb ≠ .drop ∨ c.threads = false) :
    okAll (CallsDrop c s contentCb req) (Answered s) (deferredOutput c s contentCb req) := by
  cases hcall : deferredOutput c s contentCb req with
  | error f => exact deferredOutput_fault hcall
  | ok s' =>
    obtain ⟨-, w, rfl⟩ | ⟨-, hthreads, hdrop, w, rfl⟩ | ⟨-, answer, -, rfl⟩ :=
      deferredOutput_cases hcall
    · exact rfl
    · rcases h with h | h
      · contradiction
      · rw [h] at hthreads
        contradiction
    · exact rfl

theorem appendContent_answered {contentCb : ContentCb} {req : Request} :
    okAll (CallsDrop c s contentCb req) (Answered s) (appendContent c s contentCb req) := by
  rw [appendContent]
  split
  · exact rfl
  · next h => exact deferredOutput_answered (.inr (Bool.eq_false_iff.mpr h))

/-! ### The plan of a handler -/

/-- What a handler of `/adm` or of files has decided to do. -/
inductive Plan
  /-- an error, in plain HTTP or as the client speaks it -/
  | fail (plain : Bool) (err : ℕ) (headers : List (CString × CString)) (herr : 400 ≤ err)
  /-- a file or a dump is sent -/
  | page (m : Content)
  | noMemory
  /-- `joblist_append_ntrip_unlocked_content` -/
  | call (contentCb : ContentCb) (req : Request)
  /-- `ntripsrv_deferred_output`, without a job -/
  | sync (req : Request)

theorem le_notFound : 400 ≤ 404 := by decide

theorem le_unavailable : 400 ≤ 503 := by decide

/-- What is decided once a file has been opened. -/
def Plan.ofFile (plain : Bool) (notRegular : ℕ) (herr : 400 ≤ notRegular)
    (mimeType : Option CString) : FileRead → Plan
  | .noFile => .fail plain 404 [] le_notFound
  | .notRegular => .fail plain notRegular [] herr
  | .failed => .fail plain 503 [] le_unavailable
  | .file content => .page ⟨mimeType, content⟩

/-- The plan is carried out. -/
def Plan.run (c : Caster W G) (s : Server W G) : Plan → Except Fault (Handled W G)
  | .fail plain err headers _ => .ok ⟨if plain then s.forceHttp else s, err, headers⟩
  | .page m => .ok ⟨(sendResultOk s.forceHttp none (some m)).setState .waitClose, 0, []⟩
  | .noMemory => .ok ⟨s.forceHttp.record (.reply (.text (cstr "Out of memory :(\n"))), 500, []⟩
  | .call contentCb req => (appendContent c s.forceHttp contentCb req).map fun s => ⟨s, 0, []⟩
  | .sync req => (deferredOutput c s.forceHttp .sync req).map fun s => ⟨s, 0, []⟩

/-- The caster, with or without threads. -/
def Caster.withThreads (c : Caster W G) (threads : Bool) : Caster W G :=
  { c with threads := threads }

/-- Two connections that carry the same request, as far as the handlers look at it. -/
structure SameRequest (s s' : Server W G) : Prop where
  w : s'.w = s.w
  content : s'.st.content = s.st.content
  contentType : s'.st.contentType = s.st.contentType
  queryString : s'.st.queryString = s.st.queryString
  user : s'.st.user = s.st.user
  password : s'.st.password = s.st.password
  schemeBasic : s'.st.schemeBasic = s.st.schemeBasic

theorem SameRequest.refl (s : Server W G) : SameRequest s s := ⟨rfl, rfl, rfl, rfl, rfl, rfl, rfl⟩

theorem SameRequest.forceHttp (h : SameRequest s s') : SameRequest s s'.forceHttp :=
  ⟨h.w, h.content, h.contentType, h.queryString, h.user, h.password, h.schemeBasic⟩

section Plans

variable (c : Caster W G) (config : Config) (s : Server W G)

/-- The user interface is served by a plan. -/
theorem exists_plan_uiServe (uri : CString) : ∃ plan : Option Plan, ∀ threads s',
    SameRequest s s' → (uiServe (c.withThreads threads) config s' uri).map Except.ok =
      plan.map (Plan.run (c.withThreads threads) s') := by
  by_cases hui : uri ≠ cstr "/ui" ∧ ¬ (cstr "/ui/").isPrefixOf uri
  · exact ⟨none, fun threads s' _ => by rw [uiServe, if_pos hui]; rfl⟩
  cases hdir : config.uiDir with
  | none =>
    exact ⟨some (.fail false 404 [] (by decide)), fun threads s' _ => by
      rw [uiServe, if_neg hui, hdir]; rfl⟩
  | some uiDir =>
    by_cases hdots : ((uiRel uri).splitOn 47).any ((cstr "..").isPrefixOf ·)
    · exact ⟨some (.fail false 404 [] (by decide)), fun threads s' _ => by
        rw [uiServe, if_neg hui, hdir]
        dsimp only
        rw [if_pos hdots]
        rfl⟩
    · refine ⟨some (.ofFile false 404 le_notFound (some (uiMimeType (uiRel uri)))
        (c.readFile s.w (uiDir ++ [47] ++ uiRel uri))), fun threads s' h => ?_⟩
      rw [uiServe, if_neg hui, hdir]
      dsimp only
      rw [if_neg hdots, h.w, Caster.withThreads]
      cases c.readFile s.w (uiDir ++ [47] ++ uiRel uri) <;> rfl

/-- Files are served by a plan. -/
theorem exists_plan_filesrv (uri : CString) : ∃ plan : Option Plan, ∀ threads s',
    SameRequest s s' → (filesrv (c.withThreads threads) config s' uri).map Except.ok =
      plan.map (Plan.run (c.withThreads threads) s') := by
  cases hroot : config.webroots.find? (fun wr => wr.uri ≠ [] ∧ wr.uri.isPrefixOf uri) with
  | none => exact ⟨none, fun threads s' _ => by rw [filesrv, hroot]; rfl⟩
  | some wr =>
    by_cases hsafe : checkSafeUri uri = false
    · exact ⟨some (.fail false 404 [] (by decide)), fun threads s' _ => by
        rw [filesrv, hroot]
        dsimp only
        rw [if_pos hsafe]
        rfl⟩
    · refine ⟨some (.ofFile true 503 le_unavailable none
        (c.readFile s.w (pathJoin c.configDir [wr.path, uri]))), fun threads s' h => ?_⟩
      rw [filesrv, hroot]
      dsimp only
      rw [if_neg hsafe, h.forceHttp.w, Caster.withThreads]
      cases c.readFile s.w (pathJoin c.configDir [wr.path, uri]) <;> rfl

/-- The plan of a handler that has forced plain HTTP. -/
def Plans (c : Caster W G) (s : Server W G)
    (handle : Caster W G → Server W G → Except Fault (Handled W G)) : Prop :=
  ∃ plan : Plan, ∀ threads s', SameRequest s s' →
    handle (c.withThreads threads) s'.forceHttp = plan.run (c.withThreads threads) s'

theorem plans_admsrvHash (method uri : CString) (hash : HashTable CString) :
    Plans c s fun c s => admsrvHash c config s method uri hash := by
  set adminRole := hashRole config s.st hash with hdef
  have hrole {s'} (h : SameRequest s s') : hashRole config s'.forceHttp.st hash = adminRole := by
    rw [hdef, hashRole, hashRole, h.forceHttp.user, h.forceHttp.password, h.forceHttp.schemeBasic]
  by_cases hnone : adminRole = .roleNone
  · exact ⟨.fail true 401 [] (by decide), fun threads s' h => by
      dsimp only
      rw [admsrvHash, hrole h]
      exact if_pos hnone⟩
  by_cases hcall : ∀ call ∈ calls, call.1 ≠ uri
  · exact ⟨.fail true 404 [] (by decide), fun threads s' h => by
      dsimp only
      rw [admsrvHash, hrole h, if_neg hnone, if_pos hcall]
      rfl⟩
  cases hfind : calls.find? (fun call => call.1 = uri ∧ call.2.1 = method) with
  | none =>
    exact ⟨.fail true 405 [] (by decide), fun threads s' h => by
      dsimp only
      rw [admsrvHash, hrole h, if_neg hnone, if_neg hcall, hfind]
      rfl⟩
  | some call =>
    by_cases hpost : method = cstr "POST" ∧ adminRole ≠ .roleAdmin
    · exact ⟨.fail true 403 [] (by decide), fun threads s' h => by
        dsimp only
        rw [admsrvHash, hrole h, if_neg hnone, if_neg hcall, hfind]
        exact if_pos hpost⟩
    · exact ⟨.call call.2.2 ⟨some hash, none, s.st.user, adminRole⟩, fun threads s' h => by
        dsimp only
        rw [admsrvHash, hrole h, if_neg hnone, if_neg hcall, hfind]
        dsimp only
        rw [if_neg hpost, h.forceHttp.user]
        rfl⟩

theorem plans_admsrvJson (uri content : CString) :
    Plans c s fun c s => admsrvJson c config s uri content := by
  by_cases hparse : c.jsonTokenerParse content = false
  · exact ⟨.fail true 400 [] (by decide), fun threads s' _ => if_pos hparse⟩
  by_cases huri : uri = cstr "/api/v1/sync"
  · by_cases hauth : config.syncerAuth = none ∨ s.st.schemeBasic ∨ config.syncerAuth ≠ s.st.password
    · refine ⟨.fail true 401 [] (by decide), fun threads s' h => ?_⟩
      dsimp only
      rw [admsrvJson, Caster.withThreads, if_neg hparse, if_pos huri, h.forceHttp.schemeBasic,
        h.forceHttp.password]
      exact if_pos hauth
    · refine ⟨.sync ⟨none, some content, s.st.user, .roleNone⟩, fun threads s' h => ?_⟩
      dsimp only
      rw [admsrvJson, Caster.withThreads, if_neg hparse, if_pos huri, h.forceHttp.schemeBasic,
        h.forceHttp.password, h.forceHttp.user]
      exact if_neg hauth
  · refine ⟨.fail true 404 [] (by decide), fun threads s' _ => ?_⟩
    dsimp only
    rw [admsrvJson, Caster.withThreads, if_neg hparse, if_neg huri]
    rfl

theorem plans_admsrvLegacy (rootUri uri : CString) :
    Plans c s fun c s => admsrvLegacy c config s rootUri uri := by
  set adminRole := resolveAdminRole config.sourceAuth config.adminUser config.userAuth s.st.user
    s.st.password with hdef
  have hrole {s'} (h : SameRequest s s') : resolveAdminRole config.sourceAuth config.adminUser
      config.userAuth s'.forceHttp.st.user s'.forceHttp.st.password = adminRole := by
    rw [hdef, h.forceHttp.user, h.forceHttp.password]
  by_cases hnone : s.st.user = none ∨ adminRole = .roleNone
  · refine ⟨.fail true 401 [(cstr "WWW-Authenticate",
      cstr "Basic realm=\"" ++ rootUri ++ cstr "\"")] (by decide), fun threads s' h => ?_⟩
    dsimp only
    rw [admsrvLegacy, hrole h, h.forceHttp.user]
    exact if_pos hnone
  by_cases hmem : uri = cstr "/mem" ∨ uri = cstr "/mem.json"
  · refine ⟨(c.mallocStatsDump s.w (uri = cstr "/mem.json")).elim .noMemory .page,
      fun threads s' h => ?_⟩
    dsimp only
    rw [admsrvLegacy, hrole h, h.forceHttp.user, h.forceHttp.w, Caster.withThreads]
    rw [if_neg hnone, if_pos hmem]
    cases c.mallocStatsDump s.w (uri = cstr "/mem.json") <;> rfl
  by_cases hnet : uri = cstr "/net"
  · refine ⟨.call .ntripList ⟨none, none, s.st.user, adminRole⟩, fun threads s' h => ?_⟩
    dsimp only
    rw [admsrvLegacy, hrole h, h.forceHttp.user]
    rw [if_neg hnone, if_neg hmem, if_pos hnet]
    rfl
  · refine ⟨.fail true 404 [] (by decide), fun threads s' h => ?_⟩
    dsimp only
    rw [admsrvLegacy, hrole h, h.forceHttp.user]
    rw [if_neg hnone, if_neg hmem, if_neg hnet]
    rfl

/-- **A call of `/adm` follows a plan**, which does not depend on whether there are threads. -/
theorem exists_plan_admsrv (method rootUri uri : CString) : ∃ plan : Plan, ∀ threads s',
    SameRequest s s' → admsrv (c.withThreads threads) config s' method rootUri uri =
      plan.run (c.withThreads threads) s' := by
  obtain ⟨ui, hui⟩ : ∃ plan : Option Plan, ∀ threads s', SameRequest s s' →
      (if method = cstr "GET" then uiServe (c.withThreads threads) config s' uri else none).map
        Except.ok = plan.map (Plan.run (c.withThreads threads) s') := by
    by_cases hget : method = cstr "GET"
    · obtain ⟨plan, hplan⟩ := exists_plan_uiServe c config s uri
      exact ⟨plan, fun threads s' h => by rw [if_pos hget]; exact hplan threads s' h⟩
    · exact ⟨none, fun threads s' _ => by rw [if_neg hget]; rfl⟩
  cases ui with
  | some plan =>
    refine ⟨plan, fun threads s' h => ?_⟩
    obtain ⟨handled, hserve, hrun⟩ := Option.map_eq_some_iff.mp (hui threads s' h)
    rw [admsrv, hserve]
    exact hrun
  | none =>
    have hnone {threads s'} (h : SameRequest s s') :
        (if method = cstr "GET" then uiServe (c.withThreads threads) config s' uri else none) =
          none :=
      Option.map_eq_none_iff.mp (hui threads s' h)
    by_cases hpost : method = cstr "POST"
    · by_cases htype : s.st.contentType.any (fun t =>
          t ≠ cstr "application/x-www-form-urlencoded" ∧ t ≠ cstr "application/json")
      · refine ⟨.fail true 503 [] (by decide), fun threads s' h => ?_⟩
        rw [admsrv, hnone h]
        dsimp only
        rw [if_pos hpost, h.forceHttp.contentType]
        exact if_pos htype
      by_cases hform : s.st.contentType = none ∨
          s.st.contentType = some (cstr "application/x-www-form-urlencoded")
      · cases hhash : hashFromUrlencoding (s.st.content.map toCString) with
        | none =>
          refine ⟨.fail true 503 [] (by decide), fun threads s' h => ?_⟩
          rw [admsrv, hnone h]
          dsimp only
          rw [if_pos hpost, h.forceHttp.contentType, h.forceHttp.content]
          rw [if_neg htype, if_pos hform, hhash]
          rfl
        | some hash =>
          obtain ⟨plan, hplan⟩ := plans_admsrvHash c config s method uri hash
          refine ⟨plan, fun threads s' h => ?_⟩
          rw [admsrv, hnone h]
          dsimp only
          rw [if_pos hpost, h.forceHttp.contentType, h.forceHttp.content]
          rw [if_neg htype, if_pos hform, hhash]
          exact hplan threads s' h
      · cases hcontent : s.st.content with
        | none =>
          refine ⟨.fail true 400 [] (by decide), fun threads s' h => ?_⟩
          rw [admsrv, hnone h]
          dsimp only
          rw [if_pos hpost, h.forceHttp.contentType, h.forceHttp.content]
          rw [if_neg htype, if_neg hform, hcontent]
          rfl
        | some content =>
          obtain ⟨plan, hplan⟩ := plans_admsrvJson c config s uri (toCString content)
          refine ⟨plan, fun threads s' h => ?_⟩
          rw [admsrv, hnone h]
          dsimp only
          rw [if_pos hpost, h.forceHttp.contentType, h.forceHttp.content]
          rw [if_neg htype, if_neg hform, hcontent]
          exact hplan threads s' h
    by_cases hapi : method = cstr "GET" ∧
        (s.st.queryString.isSome ∨ (cstr "/api/v1/").isPrefixOf uri)
    · cases hhash : hashFromUrlencoding s.st.queryString with
      | none =>
        refine ⟨.fail true 503 [] (by decide), fun threads s' h => ?_⟩
        rw [admsrv, hnone h]
        dsimp only
        rw [if_neg hpost, h.forceHttp.queryString]
        rw [if_pos hapi, hhash]
        rfl
      | some hash =>
        obtain ⟨plan, hplan⟩ := plans_admsrvHash c config s method uri hash
        refine ⟨plan, fun threads s' h => ?_⟩
        rw [admsrv, hnone h]
        dsimp only
        rw [if_neg hpost, h.forceHttp.queryString]
        rw [if_pos hapi, hhash]
        exact hplan threads s' h
    · obtain ⟨plan, hplan⟩ := plans_admsrvLegacy c config s rootUri uri
      refine ⟨plan, fun threads s' h => ?_⟩
      rw [admsrv, hnone h]
      dsimp only
      rw [if_neg hpost, h.forceHttp.queryString]
      rw [if_neg hapi]
      exact hplan threads s' h

/-- The plan that a caster follows. -/
theorem exists_admsrv_eq_run (method rootUri uri : CString) :
    ∃ plan : Plan, admsrv c config s method rootUri uri = plan.run c s := by
  obtain ⟨plan, hplan⟩ := exists_plan_admsrv c config s method rootUri uri
  exact ⟨plan, hplan c.threads s (.refl s)⟩

theorem exists_run_eq_filesrv {uri : CString} {h : Handled W G}
    (hfile : filesrv c config s uri = some h) : ∃ plan : Plan, plan.run c s = .ok h := by
  obtain ⟨plan, hplan⟩ := exists_plan_filesrv c config s uri
  have hrun : (filesrv c config s uri).map Except.ok = plan.map (Plan.run c s) :=
    hplan c.threads s (.refl s)
  rw [hfile] at hrun
  obtain ⟨plan, -, hrun⟩ := Option.map_eq_some_iff.mp hrun.symm
  exact ⟨plan, hrun⟩

end Plans

/-- A plan changes nothing else. -/
theorem Plan.run_answered (plan : Plan) :
    okAll (fun _ => True) (fun h => Answered s h.s) (plan.run c s) := by
  have hplain := answered_forceHttp s
  cases plan with
  | fail plain err headers herr =>
    rw [Plan.run, okAll_ok]
    split
    · exact hplain
    · exact rfl
  | page m => exact (hplain.trans (answered_sendResultOk _ _ _)).trans (answered_setState _ _)
  | noMemory => exact hplain.trans rfl
  | call contentCb req =>
    exact okAll_map.mpr (appendContent_answered.imp (fun _ _ => trivial) fun _ => hplain.trans)
  | sync req =>
    exact okAll_map.mpr ((deferredOutput_answered (.inl (by decide))).imp (fun _ _ => trivial)
      fun _ => hplain.trans)

/-- A call of `/adm` drops its own session. -/
structure PostsDrop (c : Caster W G) (config : Config) (s : Server W G) (method uri : CString)
    (f : Fault) : Prop where
  fault : f = .freedSession
  threads : c.threads = false
  method : method = cstr "POST"
  uri : uri = cstr "/api/v1/drop"
  named : ((hashFromUrlencoding (s.st.content.map toCString)).any fun hash =>
    c.dropsItself s.w ⟨some hash, none, s.st.user, hashRole config s.st hash⟩) = true

theorem calls_drop : ∀ call ∈ calls, call.2.2 = .drop →
    call.1 = cstr "/api/v1/drop" ∧ call.2.1 = cstr "POST" := by
  decide

theorem appendContent_fault {contentCb : ContentCb} {req : Request} {f : Fault}
    (h : appendContent c s contentCb req = .error f) : CallsDrop c s contentCb req f := by
  have hall : okAll (CallsDrop c s contentCb req) (Answered s) (appendContent c s contentCb req) :=
    appendContent_answered
  rwa [h] at hall

theorem map_error {α β : Type} {g : α → β} {o : Except Fault α} {f : Fault}
    (h : o.map g = .error f) : o = .error f := by
  cases o with
  | ok a => contradiction
  | error f' => exact congrArg _ (Except.error.inj h)

theorem admsrvHash_fault {method uri : CString} {hash : HashTable CString} {f : Fault}
    (h : admsrvHash c config s method uri hash = .error f) :
    f = .freedSession ∧ c.threads = false ∧ method = cstr "POST" ∧ uri = cstr "/api/v1/drop" ∧
      c.dropsItself s.w ⟨some hash, none, s.st.user, hashRole config s.st hash⟩ = true := by
  rw [admsrvHash] at h
  split at h
  · contradiction
  · split at h
    · contradiction
    · split at h
      · contradiction
      · next call hfind =>
        split at h
        · contradiction
        · obtain ⟨hf, hthreads, hdrop, hnamed⟩ := appendContent_fault (map_error h)
          obtain ⟨huri, hmethod⟩ := calls_drop call (List.mem_of_find?_eq_some hfind) hdrop
          have hfound := List.find?_some hfind
          obtain ⟨huri', hmethod'⟩ := of_decide_eq_true hfound
          exact ⟨hf, hthreads, hmethod'.symm.trans hmethod, huri'.symm.trans huri, hnamed⟩

theorem not_admsrvJson_fault {uri content : CString} {f : Fault} :
    admsrvJson c config s uri content ≠ .error f := by
  intro h
  rw [admsrvJson] at h
  split at h
  · contradiction
  · split at h
    · split at h
      · contradiction
      · exact ContentCb.noConfusion (deferredOutput_fault (map_error h)).2.2.1
    · contradiction

theorem not_admsrvLegacy_fault {rootUri uri : CString} {f : Fault} :
    admsrvLegacy c config s rootUri uri ≠ .error f := by
  intro h
  rw [admsrvLegacy] at h
  split at h
  · contradiction
  · split at h
    · split at h <;> contradiction
    · split at h
      · exact ContentCb.noConfusion (appendContent_fault (map_error h)).2.2.1
      · contradiction

/-- The fault of a call of `/adm`. -/
theorem admsrv_fault {method rootUri uri : CString} {f : Fault}
    (h : admsrv c config s method rootUri uri = .error f) :
    PostsDrop c config s method uri f := by
  rw [admsrv] at h
  split at h
  · contradiction
  · dsimp only at h
    split at h
    · split at h
      · contradiction
      · split at h
        · split at h
          · contradiction
          · next hash hhash =>
            obtain ⟨hf, hthreads, hmethod, huri, hnamed⟩ := admsrvHash_fault h
            refine ⟨hf, hthreads, hmethod, huri, ?_⟩
            rw [show s.st.content = s.forceHttp.st.content from rfl, hhash]
            exact hnamed
        · split at h
          · contradiction
          · exact absurd h not_admsrvJson_fault
    · next hmethod =>
      split at h
      · split at h
        · contradiction
        · exact absurd (admsrvHash_fault h).2.2.1 hmethod
      · exact absurd h not_admsrvLegacy_fault

theorem admsrv_answered (c : Caster W G) (config : Config) (s : Server W G)
    (method rootUri uri : CString) : okAll (PostsDrop c config s method uri)
      (fun h => Answered s h.s) (admsrv c config s method rootUri uri) := by
  cases hcall : admsrv c config s method rootUri uri with
  | error f => exact admsrv_fault hcall
  | ok h =>
    obtain ⟨plan, hrun⟩ := exists_admsrv_eq_run c config s method rootUri uri
    have hanswered : okAll (fun _ => True) (fun h => Answered s h.s) (plan.run c s) :=
      plan.run_answered
    rwa [← hrun, hcall] at hanswered

/-- The path of the request is in full. -/
theorem PostsDrop.dropsItself {method uri version : CString} {f : Fault}
    (h : PostsDrop c config s method (uri.drop 4) f)
    (hargs : s.st.httpArgs = [method, uri, version]) (hadm : isAdm uri = true) :
    DropsItself c config s f := by
  obtain ⟨rest, rfl⟩ := List.isPrefixOf_iff_prefix.mp hadm
  refine ⟨h.fault, h.threads, ?_⟩
  have huri : cstr "/adm/" ++ rest = cstr "/adm/api/v1/drop" :=
    congrArg (cstr "/adm" ++ ·) h.uri
  rw [namesItself, hargs]
  exact decide_eq_true ⟨h.method, huri, h.named⟩

theorem filesrv_answered {uri : CString} {h : Handled W G}
    (hfile : filesrv c config s uri = some h) : Answered s h.s := by
  obtain ⟨plan, hrun⟩ := exists_run_eq_filesrv c config s hfile
  have hanswered : okAll (fun _ => True) (fun h => Answered s h.s) (plan.run c s) :=
    plan.run_answered
  rwa [hrun] at hanswered

theorem startStream_answered (s : Server W G) (mountpoint : CString) (virtual : Bool) :
    Answered s (startStream s mountpoint virtual) := by
  have hsend : Answered s ((sendResultOk { s with st := { s.st with
      connectionKeepalive := false
      sourceVirtual := virtual
      mountpoint := some mountpoint } } (some (cstr "gnss/data")) none).setState
        .waitClientInput) :=
    ((answered_sendResultOk _ _ _).trans (answered_setState _ _)).after rfl
  rw [startStream]
  dsimp only
  split
  · exact hsend.trans rfl
  · exact hsend

theorem getSourcetable_answered : (getSourcetable c s).All allowed (Answered s) := by
  rw [getSourcetable]
  dsimp only
  have hsend := answered_sendSourcetable c s
  split
  · exact all_goOn.mpr (hsend.trans (answered_setState _ _))
  · exact all_leave.mpr (hsend.trans (answered_setState _ _))

theorem getMountpoint_answered {mountpoint : CString} :
    (getMountpoint c s mountpoint).All allowed (Answered s) := by
  rw [getMountpoint]
  dsimp only
  generalize (if (c.stackFindMountpoint s.w mountpoint).all (!·.virtual) = true then _
    else _ : Bool × W) = r
  have hsubscribe : Answered s (if r.1 = true then
      Server.record { s with w := r.2 } (.subscribe mountpoint) else { s with w := r.2 }) := by
    split <;> rfl
  generalize (if r.1 = true then _ else _ : Server W G) = s₁ at hsubscribe ⊢
  split
  · split
    · exact hsubscribe.trans (startStream_answered _ _ _)
    · split
      · exact getSourcetable_answered.mono fun _ => hsubscribe.trans
      · exact hsubscribe.trans rfl
  · split
    · exact hsubscribe.trans ((startStream_answered _ _ _).after rfl)
    · split
      · exact hsubscribe.trans
          (((answered_sendSourcetable c _).trans (answered_setState _ _)).after rfl)
      · exact hsubscribe.trans rfl

theorem getRequest_answered {uri : CString} :
    (getRequest c config s uri).All allowed (Answered s) := by
  rw [getRequest]
  split
  · exact rfl
  · split
    · have hadm := admsrv_answered c config s (cstr "GET") (cstr "/adm") (uri.drop 4)
      split
      · next hf =>
        rw [hf] at hadm
        exact absurd (PostsDrop.method hadm) (by decide)
      · next hok => rwa [hok] at hadm
    · split
      · next hfile => exact filesrv_answered hfile
      · dsimp only
        split
        · exact getSourcetable_answered
        · split
          · exact rfl
          · exact getMountpoint_answered

theorem sourceRequest_answered {mountpoint password : CString} {user : Option CString} :
    (sourceRequest c config s mountpoint user password).All allowed (Answered s) := by
  rw [sourceRequest]
  dsimp only
  split
  · exact rfl
  · split
    · exact rfl
    · split
      · exact rfl
      · split
        · exact rfl
        · split
          · exact rfl
          · split
            · exact rfl
            · exact ((answered_sendResultOk _ _ _).trans (answered_setState _ _)).after rfl

theorem postRequest_answered {uri version : CString}
    (hargs : s.st.httpArgs = [cstr "POST", uri, version]) :
    (postRequest c config s uri).All
      (fun f => s.st.contentLength = 0 ∧ DropsItself c config s f) (Answered s) := by
  rw [postRequest]
  split
  · next huri =>
    split
    · next hlength =>
      have hadm := admsrv_answered c config s (cstr "POST") (cstr "/adm") (uri.drop 4)
      split
      · next hf =>
        rw [hf] at hadm
        exact ⟨hlength, PostsDrop.dropsItself hadm hargs huri⟩
      · next h hok =>
        rw [hok] at hadm
        exact all_goOn.mpr (Answered.trans hadm (answered_setState _ _))
    · exact rfl
  · split
    · exact rfl
    · dsimp only
      split
      · exact rfl
      · split
        · exact sourceRequest_answered.mono fun _ => Answered.trans rfl
        · exact rfl

theorem oldSourceRequest_answered {password mountpoint : CString} :
    (oldSourceRequest c config s password mountpoint).All allowed (Answered s) := by
  rw [oldSourceRequest]
  split
  · exact rfl
  · exact sourceRequest_answered.mono fun _ => Answered.trans rfl

/-- **A request is answered**, and the fields it was read into are still there. One with content
is not answered before it. -/
theorem dispatch_answered : (dispatch c config s).All
    (fun f => s.st.contentLength = 0 ∧ DropsItself c config s f) (Answered s) := by
  rw [dispatch]
  split
  · next method uri version hargs =>
    split
    · exact getRequest_answered
    · split
      · next hpost => exact postRequest_answered (hpost ▸ hargs)
      · split
        · exact oldSourceRequest_answered
        · exact rfl
  · exact rfl

theorem endContent_answered :
    (endContent c config s).All (DropsItself c config s) (Answered s) := by
  rw [endContent]
  split
  · next method uri _ hargs =>
    split
    · next huri =>
      have hadm := admsrv_answered c config (s.record (.content (s.st.content.getD []))) method
        (cstr "/adm") (uri.drop 4)
      split
      · next hf =>
        rw [hf] at hadm
        exact PostsDrop.dropsItself (s := s.record (.content (s.st.content.getD []))) hadm hargs
          huri
      · next h hok =>
        rw [hok] at hadm
        exact all_goOn.mpr ((Answered.trans hadm (answered_setState _ _)).after rfl)
    · exact rfl
  · exact rfl

/-- The reply to an error is only recorded. -/
theorem replyError_eq (s : Server W G) (l : Leave) :
    replyError s l = { s with log := (replyError s l).log } := by
  rw [replyError]
  split
  · rfl
  · split
    · rfl
    · split <;> rfl

/-- What is done after the loop. -/
theorem afterLoop_cases (s : Server W G) (l : Leave) :
    (l.err = 0 ∧ s.st.state ≠ .forceClose ∧ afterLoop s l = s) ∨
      (l.err = 0 ∧ s.st.state = .forceClose ∧ afterLoop s l = decrefEnd s) ∨
      (l.err ≠ 0 ∧ afterLoop s l = (replyError s l).setState .waitClose) := by
  rw [afterLoop]
  by_cases herr : l.err = 0
  · rw [if_neg (not_not.mpr herr)]
    by_cases hstate : s.st.state = .forceClose
    · exact .inr (.inl ⟨herr, hstate, if_pos hstate⟩)
    · exact .inl ⟨herr, hstate, if_neg hstate⟩
  · rw [if_pos herr]
    exact .inr (.inr ⟨herr, if_neg SessionState.noConfusion⟩)

/-- What follows the loop answers too, and may end the session. -/
theorem afterLoop_answered (s : Server W G) (l : Leave) :
    ∃ s', Answered s s' ∧ (afterLoop s l = s' ∨ afterLoop s l = decrefEnd s') := by
  obtain ⟨-, -, heq⟩ | ⟨-, -, heq⟩ | ⟨-, heq⟩ := afterLoop_cases s l
  · exact ⟨s, .refl s, .inl heq⟩
  · exact ⟨s, .refl s, .inr heq⟩
  · refine ⟨(replyError s l).setState .waitClose, ?_, .inl heq⟩
    rw [replyError_eq]
    exact rfl

end Ntripsrv

end ChilopodCaster
