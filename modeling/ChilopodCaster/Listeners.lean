import Mathlib.Logic.Function.Basic
import Mathlib.Data.List.Count
import Mathlib.Data.List.Perm.Basic
import ChilopodCaster.Ip
import ChilopodCaster.Lib.Transition

/-!
# Listening ports

Each reload makes the listeners of the new configuration. A listener of the old configuration with
the same address is taken over as it is, with its socket. What is set again then is the certificate;
the flag `tls` is only ever cleared, and the context that is freed at that moment stays in the
listener.

A listener is shared by the configurations that have it, and is closed with the last of them. An old
configuration lives as long as some session holds it, so its listeners may stay open for long.

## Main definitions

* `ListenerMem` — the listeners and the contexts of OpenSSL
* `ListenerMem.listenerSetupTls`, `listenerNew`, `listenerDecref` — the functions of `caster.c`
* `Listening.casterReloadListeners` — `caster_reload_listeners`
* `Listening.Encrypted` — ports are served as their configuration says
* `Listening.Apart` — a reload asks for TLS only where nothing is open without it

## Main results

* `Listening.reachable_encrypted` — in a run of such reloads all ports are served as configured
* `Listening.not_encrypted_switchedOn` — a port that is switched to TLS and served in clear text
-/

namespace ChilopodCaster

/-- `struct config_bind`. -/
structure ConfigBind where
  ip : CString
  port : ℕ
  tls : Bool
  tlsFullCertificateChain : Option CString
  tlsPrivateKey : Option CString
  hostname : Option CString
  deriving DecidableEq, Repr

/-- The address to bind, from `ip_convert` and the port. -/
def ConfigBind.sockaddr (this : ConfigBind) : Option (Sock × ℕ) :=
  (ipConvert this.ip).map fun sin => (sin, this.port)

/-- `struct listener`. `listening` tells if its `evconnlistener` is open; a context is a number. -/
structure Listener where
  sockaddr : Sock × ℕ
  listening : Bool
  tls : Bool
  sslServerCtx : Option ℕ
  hostname : Option CString
  refcnt : ℕ
  deriving DecidableEq, Repr

/-- The listener has TLS if the entry is for its address and asks for it. -/
def Listener.Shields (l : Listener) (b : ConfigBind) : Prop :=
  b.tls = true → b.sockaddr = some l.sockaddr → l.tls = true

instance (l : Listener) (b : ConfigBind) : Decidable (l.Shields b) :=
  inferInstanceAs (Decidable (b.tls = true → b.sockaddr = some l.sockaddr → l.tls = true))

/-- What OpenSSL and the allocator answer to one call of `listener_setup_tls`. -/
structure TlsEnv where
  ctx : Bool
  hostname : Bool
  certs : Bool
  deriving DecidableEq, Repr

/-- What the system answers while one entry is reloaded: for the listener that is taken over, and
for a new one. -/
structure BindEnv where
  recycle : TlsEnv
  memory : Bool
  fresh : TlsEnv
  socket : Bool
  deriving DecidableEq, Repr

/-- The listeners, the contexts allocated, and those freed. -/
structure ListenerMem where
  listeners : ℕ → Listener
  count : ℕ
  ctxCount : ℕ
  freed : List ℕ

namespace ListenerMem

def set (this : ListenerMem) (i : ℕ) (l : Listener) : ListenerMem :=
  { this with listeners := Function.update this.listeners i l }

/-- `malloc`, for a listener with these fields. -/
def alloc (this : ListenerMem) (l : Listener) : ListenerMem :=
  { this.set this.count l with count := this.count + 1 }

/-- `SSL_CTX_free`. -/
def sslCtxFree (this : ListenerMem) : Option ℕ → ListenerMem
  | some ctx => { this with freed := ctx :: this.freed }
  | none => this

/-- `listener_load_certs`, and the end of `listener_setup_tls`. There is no result when `joinpath`
reads a path that is `NULL`, or OpenSSL a context that was freed. -/
def listenerLoadCerts (this : ListenerMem) (i : ℕ) (config : ConfigBind) (env : TlsEnv) :
    Option (ListenerMem × Bool) :=
  match (this.listeners i).sslServerCtx, config.tlsFullCertificateChain, config.tlsPrivateKey with
  | some ctx, some _, some _ =>
    if ctx ∈ this.freed then none
    else if env.certs then some (this, true)
    else
      some ((this.set i { this.listeners i with sslServerCtx := none }).sslCtxFree (some ctx),
        false)
  | _, _, _ => none

/-- `SSL_CTX_new`, and the host name for its callback. -/
def newCtx (this : ListenerMem) (i : ℕ) (config : ConfigBind) (env : TlsEnv) : ListenerMem :=
  { this.set i
      { this.listeners i with
        sslServerCtx := some this.ctxCount
        hostname :=
          if config.hostname.isSome then if env.hostname then config.hostname else none
          else (this.listeners i).hostname } with
    ctxCount := this.ctxCount + 1 }

/-- `listener_setup_tls`. -/
def listenerSetupTls (this : ListenerMem) (i : ℕ) (config : ConfigBind) (env : TlsEnv) :
    Option (ListenerMem × Bool) :=
  match (this.listeners i).sslServerCtx with
  | some _ => this.listenerLoadCerts i config env
  | none =>
    if env.ctx then
      if config.hostname.isSome ∧ ¬ env.hostname then some (this.newCtx i config env, false)
      else (this.newCtx i config env).listenerLoadCerts i config env
    else some (this, false)

/-- `free(listener)`. -/
def drop (this : ListenerMem) (i : ℕ) : ListenerMem :=
  this.set i { this.listeners i with refcnt := 0 }

/-- `evconnlistener_new_bind`. The address of an open socket cannot be bound again. -/
def listen (this : ListenerMem) (i : ℕ) (socket : Bool) : ListenerMem × Option ℕ :=
  if socket = true ∧ ∀ j < this.count, (this.listeners j).listening = true →
      (this.listeners j).sockaddr ≠ (this.listeners i).sockaddr then
    (this.set i { this.listeners i with listening := true }, some i)
  else (this.drop i, none)

/-- `listener_new`. -/
def listenerNew (this : ListenerMem) (config : ConfigBind) (sin : Sock × ℕ) (env : BindEnv) :
    Option (ListenerMem × Option ℕ) :=
  if env.memory then
    let i := this.count
    let this := this.alloc ⟨sin, false, config.tls, none, none, 1⟩
    if config.tls = true ∧ config.tlsFullCertificateChain.isSome ∧ config.tlsPrivateKey.isSome then
      match this.listenerSetupTls i config env.fresh with
      | some (this, true) => some (this.listen i env.socket)
      | some (this, false) => some (this.drop i, none)
      | none => none
    else some (this.listen i env.socket)
  else some (this, none)

/-- `listener_free`. -/
def listenerFree (this : ListenerMem) (i : ℕ) : ListenerMem :=
  let l := this.listeners i
  (this.set i { l with listening := false }).sslCtxFree (if l.tls then l.sslServerCtx else none)

def listenerIncref (this : ListenerMem) (i : ℕ) : ListenerMem :=
  this.set i { this.listeners i with refcnt := (this.listeners i).refcnt + 1 }

def listenerDecref (this : ListenerMem) (i : ℕ) : ListenerMem :=
  let l := this.listeners i
  let this := this.set i { l with refcnt := l.refcnt - 1 }
  if l.refcnt = 1 then this.listenerFree i else this

/-- A listener that is taken over: TLS may be switched off. -/
def reuse (this : ListenerMem) (i : ℕ) (config : ConfigBind) : ListenerMem :=
  let l := this.listeners i
  if l.tls = true ∧ config.tls = false then
    (this.set i { l with tls := false }).sslCtxFree l.sslServerCtx
  else this

end ListenerMem

/-- The memory, the entries of the live configuration, the listeners of its `dyn` with the entry
that each one serves, and the listeners of the old configurations that are still held. -/
structure Listening where
  mem : ListenerMem
  binds : List ConfigBind
  live : List (ℕ × ConfigBind)
  old : List (List ℕ)

/-- The new listeners made so far, with their entries. -/
abbrev NewListeners := ListenerMem × List (ℕ × ConfigBind)

/-- No reusable listener found, or reuse failed. -/
def openListener (mem : ListenerMem) (newListeners : List (ℕ × ConfigBind)) (sin : Sock × ℕ)
    (config : ConfigBind) (env : BindEnv) : Option NewListeners :=
  match mem.listenerNew config sin env with
  | some (mem, some i) => some (mem, newListeners ++ [(i, config)])
  | some (mem, none) => some (mem, newListeners)
  | none => none

/-- One round of the loop of `caster_reload_listeners`. -/
def reloadListener (olddyn : List ℕ) (acc : NewListeners) (entry : ConfigBind × BindEnv) :
    Option NewListeners :=
  let (mem, newListeners) := acc
  let (config, env) := entry
  match config.sockaddr with
  | none => some acc
  | some sin =>
    match olddyn.find? fun j => (mem.listeners j).sockaddr = sin with
    | none => openListener mem newListeners sin config env
    | some j =>
      let mem := mem.listenerIncref j
      if config.tls then
        match mem.listenerSetupTls j config env.recycle with
        | none => none
        | some (mem, false) => openListener (mem.listenerDecref j) newListeners sin config env
        | some (mem, true) => some (mem.reuse j config, newListeners ++ [(j, config)])
      else some (mem.reuse j config, newListeners ++ [(j, config)])

namespace Listening

/-- Before the first load. -/
def new : Listening where
  mem := ⟨fun _ => ⟨(.unspec, 0), false, false, none, none, 0⟩, 0, 0, []⟩
  binds := []
  live := []
  old := []

/-- `caster_reload_listeners`, for the entries and with memory for their array or not. The new
configuration is live already, and the old one is kept as long as it is held. -/
def casterReloadListeners (this : Listening) (memory : Bool)
    (entries : List (ConfigBind × BindEnv)) : Option (Listening × ℤ) :=
  let olddyn := this.live.map Prod.fst
  let installed :=
    { this with binds := entries.map Prod.fst, live := [], old := olddyn :: this.old }
  if entries = [] ∨ memory = false then some (installed, -1)
  else
    match entries.foldlM (reloadListener olddyn) (this.mem, []) with
    | none => none
    | some (mem, newListeners) =>
      some ({ installed with mem := mem, live := newListeners },
        if newListeners = [] then -1 else 0)

/-- `dynconfig_free_listeners` for an old configuration that nobody holds any more. -/
def dynconfigFreeListeners (this : Listening) (k : ℕ) : Option Listening :=
  match this.old[k]? with
  | some ids =>
    some { this with
      mem := ids.foldl ListenerMem.listenerDecref this.mem
      old := this.old.eraseIdx k }
  | none => none

inductive ListenStep
  | reload (memory : Bool) (entries : List (ConfigBind × BindEnv))
  | release (k : ℕ)

def step (this : Listening) : ListenStep → Option Listening
  | .reload memory entries => (this.casterReloadListeners memory entries).map Prod.fst
  | .release k => this.dynconfigFreeListeners k

/-- How `ntripsrv_listener_cb` serves a connection. -/
inductive Served
  | clear
  | tls (ctx : ℕ)
  | closed
  deriving DecidableEq, Repr

/-- `ntripsrv_listener_cb`, for a connection accepted by a listener. `SSL_new` fails without a
context. -/
def ntripsrvListenerCb (this : Listening) (i : ℕ) : Served :=
  if (this.mem.listeners i).tls then
    match (this.mem.listeners i).sslServerCtx with
    | some ctx => .tls ctx
    | none => .closed
  else .clear

/-- The ports are served as their configuration has it. -/
structure Encrypted (this : Listening) : Prop where
  tls : ∀ p ∈ this.live, (this.mem.listeners p.1).tls = p.2.tls
  ctx : ∀ p ∈ this.live, (this.mem.listeners p.1).tls = true →
    ∃ ctx, (this.mem.listeners p.1).sslServerCtx = some ctx ∧ ctx ∉ this.mem.freed
  clear : ∀ i, (this.mem.listeners i).listening = true → ∀ b ∈ this.binds, b.tls = true →
    b.sockaddr = some (this.mem.listeners i).sockaddr → this.ntripsrvListenerCb i ≠ .clear

/-- The entries that ask for TLS have a certificate and a key, and no configuration has the port
open without TLS. Entries with the same address agree on TLS, and the certificate of the later one
can be loaded. -/
structure Apart (this : Listening) (entries : List (ConfigBind × BindEnv)) : Prop where
  certs : ∀ e ∈ entries, e.1.tls = true → e.1.sockaddr ≠ none →
    e.1.tlsFullCertificateChain ≠ none ∧ e.1.tlsPrivateKey ≠ none
  tls : ∀ i < this.mem.count, 0 < (this.mem.listeners i).refcnt →
    ∀ e ∈ entries, (this.mem.listeners i).Shields e.1
  agree : ∀ e ∈ entries, ∀ e' ∈ entries, e.1.sockaddr = e'.1.sockaddr → e.1.sockaddr ≠ none →
    e.1.tls = e'.1.tls
  twice : entries.Pairwise fun e e' => e.1.sockaddr = e'.1.sockaddr → e.1.sockaddr ≠ none →
    e'.1.tls = true → e'.2.recycle.certs = true

end Listening

/-! ### The invariant of the memory -/

namespace ListenerMem

variable {m m' : ListenerMem} {binds : List ConfigBind} {held held' : List ℕ}
  {serving : List (ℕ × ConfigBind)} {i : ℕ}

/-- The references are those of the listeners that serve an entry and of those held otherwise. No
two open listeners have the same address, no two listeners the same context, and only a listener
without TLS has a context that was freed. Any listener at the address of an entry with TLS has
TLS. -/
structure Sound (m : ListenerMem) (binds : List ConfigBind) (held : List ℕ)
    (serving : List (ℕ × ConfigBind)) : Prop where
  refcnt : ∀ i, (m.listeners i).refcnt = (serving.map Prod.fst).count i + held.count i
  bound : ∀ i, m.count ≤ i → (m.listeners i).refcnt = 0
  listening : ∀ i, (m.listeners i).listening = true → 0 < (m.listeners i).refcnt
  unique : ∀ i j, (m.listeners i).listening = true → (m.listeners j).listening = true →
    (m.listeners i).sockaddr = (m.listeners j).sockaddr → i = j
  ctxBound : ∀ i ctx, (m.listeners i).sslServerCtx = some ctx → ctx < m.ctxCount
  freedBound : ∀ ctx ∈ m.freed, ctx < m.ctxCount
  ctxInj : ∀ i j ctx, (m.listeners i).sslServerCtx = some ctx →
    (m.listeners j).sslServerCtx = some ctx → i = j
  fresh : ∀ i ctx, 0 < (m.listeners i).refcnt → (m.listeners i).tls = true →
    (m.listeners i).sslServerCtx = some ctx → ctx ∉ m.freed
  serving : ∀ p ∈ serving, p.2.sockaddr = some (m.listeners p.1).sockaddr ∧
    (m.listeners p.1).tls = p.2.tls ∧
    ((m.listeners p.1).tls = true → (m.listeners p.1).sslServerCtx ≠ none)
  shielded : ∀ i, 0 < (m.listeners i).refcnt → ∀ b ∈ binds, (m.listeners i).Shields b

/-- One listener changes, and the others keep what they had. -/
theorem listeners_cases {l : Listener} (hset : m'.listeners = Function.update m.listeners i l)
    (j : ℕ) : j = i ∧ m'.listeners j = l ∨ j ≠ i ∧ m'.listeners j = m.listeners j := by
  rw [hset]
  by_cases hne : j = i
  · subst hne
    exact .inl ⟨rfl, Function.update_self _ _ _⟩
  · exact .inr ⟨hne, Function.update_of_ne hne _ _⟩

theorem Sound.lt_count (h : Sound m binds held serving) (hi : 0 < (m.listeners i).refcnt) :
    i < m.count := by
  by_contra hle
  rw [h.bound i (Nat.le_of_not_lt hle)] at hi
  exact absurd hi (lt_irrefl 0)

theorem Sound.refcnt_pos (h : Sound m binds held serving) (hi : i ∈ held) :
    0 < (m.listeners i).refcnt := by
  rw [h.refcnt i]
  exact Nat.add_pos_right _ (List.count_pos_iff.mpr hi)

/-- **A listener changes**: what it is then is sound, and a context that is freed was its own. -/
theorem Sound.set (h : Sound m binds held serving) {l : Listener}
    (hset : m'.listeners = Function.update m.listeners i l) (hi : i < m'.count)
    (hcount : m.count ≤ m'.count) (hctxCount : m.ctxCount ≤ m'.ctxCount)
    (hrefcnt : l.refcnt = (serving.map Prod.fst).count i + held'.count i)
    (hheld : ∀ j, j ≠ i → held'.count j = held.count j)
    (hlistening : l.listening = true → 0 < l.refcnt ∧ ∀ j, j ≠ i →
      (m.listeners j).listening = true → (m.listeners j).sockaddr ≠ l.sockaddr)
    (hctx : ∀ ctx, l.sslServerCtx = some ctx → ctx < m'.ctxCount ∧
      ((m.listeners i).sslServerCtx = some ctx ∨ m.ctxCount ≤ ctx))
    (hfreed : ∀ ctx ∈ m'.freed, ctx ∈ m.freed ∨ (m.listeners i).sslServerCtx = some ctx)
    (hfresh : 0 < l.refcnt → l.tls = true → ∀ ctx, l.sslServerCtx = some ctx → ctx ∉ m'.freed)
    (hserving : ∀ p ∈ serving, p.1 = i → p.2.sockaddr = some l.sockaddr ∧ l.tls = p.2.tls ∧
      (l.tls = true → l.sslServerCtx ≠ none))
    (hshielded : 0 < l.refcnt → ∀ b ∈ binds, l.Shields b) : Sound m' binds held' serving where
  refcnt := by
    intro j
    rcases listeners_cases hset j with ⟨rfl, hj⟩ | ⟨hne, hj⟩
    · rw [hj, hrefcnt]
    · rw [hj, h.refcnt j, hheld j hne]
  bound := by
    intro j hle
    rcases listeners_cases hset j with ⟨rfl, -⟩ | ⟨-, hj⟩
    · exact absurd hi (Nat.not_lt.mpr hle)
    · rw [hj]
      exact h.bound j (hcount.trans hle)
  listening := by
    intro j hopen
    rcases listeners_cases hset j with ⟨rfl, hj⟩ | ⟨-, hj⟩
    · rw [hj] at hopen ⊢
      exact (hlistening hopen).1
    · rw [hj] at hopen ⊢
      exact h.listening j hopen
  unique := by
    intro j k hopen hopen' haddr
    rcases listeners_cases hset j with ⟨rfl, hj⟩ | ⟨hnej, hj⟩ <;>
      rcases listeners_cases hset k with ⟨rfl, hk⟩ | ⟨hnek, hk⟩
    · rfl
    · rw [hj] at hopen haddr
      rw [hk] at hopen' haddr
      exact absurd haddr.symm ((hlistening hopen).2 k hnek hopen')
    · rw [hj] at hopen haddr
      rw [hk] at hopen' haddr
      exact absurd haddr ((hlistening hopen').2 j hnej hopen)
    · rw [hj] at hopen haddr
      rw [hk] at hopen' haddr
      exact h.unique j k hopen hopen' haddr
  ctxBound := by
    intro j ctx hj'
    rcases listeners_cases hset j with ⟨rfl, hj⟩ | ⟨-, hj⟩
    · rw [hj] at hj'
      exact (hctx ctx hj').1
    · rw [hj] at hj'
      exact (h.ctxBound j ctx hj').trans_le hctxCount
  freedBound := by
    intro ctx hmem
    rcases hfreed ctx hmem with hmem | hown
    · exact (h.freedBound ctx hmem).trans_le hctxCount
    · exact (h.ctxBound i ctx hown).trans_le hctxCount
  ctxInj := by
    -- the context of the listener that changes is its old one, or newer than all others
    have hnew : ∀ j ctx, j ≠ i → l.sslServerCtx = some ctx →
        (m.listeners j).sslServerCtx ≠ some ctx := by
      intro j ctx hne hl hj
      rcases (hctx ctx hl).2 with hown | hle
      · exact hne (h.ctxInj j i ctx hj hown)
      · exact absurd (h.ctxBound j ctx hj) (Nat.not_lt.mpr hle)
    intro j k ctx hj' hk'
    rcases listeners_cases hset j with ⟨rfl, hj⟩ | ⟨hnej, hj⟩ <;>
      rcases listeners_cases hset k with ⟨rfl, hk⟩ | ⟨hnek, hk⟩
    · rfl
    · rw [hj] at hj'
      rw [hk] at hk'
      exact absurd hk' (hnew k ctx hnek hj')
    · rw [hj] at hj'
      rw [hk] at hk'
      exact absurd hj' (hnew j ctx hnej hk')
    · rw [hj] at hj'
      rw [hk] at hk'
      exact h.ctxInj j k ctx hj' hk'
  fresh := by
    intro j ctx hpos htls hj'
    rcases listeners_cases hset j with ⟨rfl, hj⟩ | ⟨hne, hj⟩
    · rw [hj] at hpos htls hj'
      exact hfresh hpos htls ctx hj'
    · rw [hj] at hpos htls hj'
      intro hmem
      rcases hfreed ctx hmem with hmem | hown
      · exact h.fresh j ctx hpos htls hj' hmem
      · exact hne (h.ctxInj j i ctx hj' hown)
  serving := by
    intro p hp
    rcases listeners_cases hset p.1 with ⟨heq, hj⟩ | ⟨-, hj⟩
    · rw [hj]
      exact hserving p hp heq
    · rw [hj]
      exact h.serving p hp
  shielded := by
    intro j hpos b hb
    rcases listeners_cases hset j with ⟨rfl, hj⟩ | ⟨-, hj⟩
    · rw [hj] at hpos ⊢
      exact hshielded hpos b hb
    · rw [hj] at hpos ⊢
      exact h.shielded j hpos b hb

@[simp] theorem listeners_sslCtxFree (m : ListenerMem) (ctx : Option ℕ) :
    (m.sslCtxFree ctx).listeners = m.listeners := by
  cases ctx <;> rfl

@[simp] theorem count_sslCtxFree (m : ListenerMem) (ctx : Option ℕ) :
    (m.sslCtxFree ctx).count = m.count := by
  cases ctx <;> rfl

@[simp] theorem ctxCount_sslCtxFree (m : ListenerMem) (ctx : Option ℕ) :
    (m.sslCtxFree ctx).ctxCount = m.ctxCount := by
  cases ctx <;> rfl

theorem mem_freed_sslCtxFree {ctx : Option ℕ} {k : ℕ} :
    k ∈ (m.sslCtxFree ctx).freed ↔ ctx = some k ∨ k ∈ m.freed := by
  cases ctx <;> simp [sslCtxFree, eq_comm]

/-! ### References -/

theorem Sound.incref (h : Sound m binds held serving) (hi : 0 < (m.listeners i).refcnt) :
    Sound (m.listenerIncref i) binds (i :: held) serving := by
  refine h.set rfl (h.lt_count hi) le_rfl le_rfl ?_ ?_ ?_ ?_ ?_ ?_ ?_ ?_
  · change (m.listeners i).refcnt + 1 = _
    rw [h.refcnt i, List.count_cons_self, Nat.add_assoc]
  · intro j hne
    rw [List.count_cons_of_ne hne.symm]
  · intro hopen
    refine ⟨Nat.succ_pos _, fun j hne hopen' haddr => ?_⟩
    exact hne (h.unique j i hopen' hopen haddr)
  · intro ctx hctx
    exact ⟨h.ctxBound i ctx hctx, .inl hctx⟩
  · exact fun ctx hmem => .inl hmem
  · intro _ htls ctx hctx
    exact h.fresh i ctx hi htls hctx
  · rintro p hp rfl
    exact h.serving p hp
  · exact fun _ => h.shielded i hi

/-- The last reference is given up: nobody serves an entry with this listener. -/
theorem Sound.not_mem_serving (h : Sound m binds (i :: held) serving)
    (hi : (m.listeners i).refcnt = 1) {p : ℕ × ConfigBind} (hp : p ∈ serving) : p.1 ≠ i := by
  rintro rfl
  have hcount := h.refcnt p.1
  have hpos : 0 < (serving.map Prod.fst).count p.1 :=
    List.count_pos_iff.mpr (List.mem_map_of_mem hp)
  rw [hi, List.count_cons_self] at hcount
  omega

theorem Sound.decref (h : Sound m binds (i :: held) serving) :
    Sound (m.listenerDecref i) binds held serving := by
  have hpos : 0 < (m.listeners i).refcnt := h.refcnt_pos List.mem_cons_self
  have hcount : (m.listeners i).refcnt - 1 = (serving.map Prod.fst).count i + held.count i := by
    rw [h.refcnt i, List.count_cons_self]
    omega
  have hothers : ∀ j, j ≠ i → held.count j = (i :: held).count j := by
    intro j hne
    rw [List.count_cons_of_ne hne.symm]
  by_cases hlast : (m.listeners i).refcnt = 1
  · have hdecref : m.listenerDecref i =
        (m.set i { m.listeners i with refcnt := (m.listeners i).refcnt - 1 }).listenerFree i :=
      if_pos hlast
    rw [hdecref]
    refine h.set (i := i) (l := { m.listeners i with
      refcnt := (m.listeners i).refcnt - 1, listening := false }) ?_ ?_ ?_ ?_ hcount hothers
      ?_ ?_ ?_ ?_ ?_ ?_
    · simp only [listenerFree, ListenerMem.set, Function.update_self]
      rw [listeners_sslCtxFree]
      exact Function.update_idem _ _ _
    · rw [listenerFree, count_sslCtxFree]
      exact h.lt_count hpos
    · rw [listenerFree, count_sslCtxFree]
      exact le_rfl
    · rw [listenerFree, ctxCount_sslCtxFree]
      exact le_rfl
    · intro hopen
      contradiction
    · intro ctx hctx
      rw [listenerFree, ctxCount_sslCtxFree]
      exact ⟨h.ctxBound i ctx hctx, .inl hctx⟩
    · intro ctx hmem
      simp only [listenerFree, ListenerMem.set, Function.update_self] at hmem
      rcases mem_freed_sslCtxFree.mp hmem with hown | hmem
      · split at hown
        · exact .inr hown
        · contradiction
      · exact .inl hmem
    · intro hpos'
      change 0 < (m.listeners i).refcnt - 1 at hpos'
      omega
    · exact fun p hp heq => absurd heq (h.not_mem_serving hlast hp)
    · intro hpos'
      change 0 < (m.listeners i).refcnt - 1 at hpos'
      omega
  · have hdecref : m.listenerDecref i =
        m.set i { m.listeners i with refcnt := (m.listeners i).refcnt - 1 } := if_neg hlast
    rw [hdecref]
    refine h.set rfl (h.lt_count hpos) le_rfl le_rfl hcount hothers ?_ ?_ ?_ ?_ ?_ ?_
    · intro hopen
      refine ⟨?_, fun j hne hopen' haddr => hne (h.unique j i hopen' hopen haddr)⟩
      change 0 < (m.listeners i).refcnt - 1
      omega
    · intro ctx hctx
      exact ⟨h.ctxBound i ctx hctx, .inl hctx⟩
    · exact fun ctx hmem => .inl hmem
    · intro _ htls ctx hctx
      exact h.fresh i ctx hpos htls hctx
    · rintro p hp rfl
      exact h.serving p hp
    · exact fun _ => h.shielded i hpos

theorem Sound.foldl_decref {ids : List ℕ} (h : Sound m binds (ids ++ held) serving) :
    Sound (ids.foldl listenerDecref m) binds held serving := by
  induction ids generalizing m with
  | nil => exact h
  | cons i ids ih => exact ih h.decref

/-- A reference goes to the entry that the listener serves from now on. -/
theorem Sound.serve (h : Sound m binds (i :: held) serving) {config : ConfigBind}
    (haddr : config.sockaddr = some (m.listeners i).sockaddr)
    (htls : (m.listeners i).tls = config.tls)
    (hctx : (m.listeners i).tls = true → (m.listeners i).sslServerCtx ≠ none) :
    Sound m binds held (serving ++ [(i, config)]) where
  refcnt := by
    intro j
    have hj := h.refcnt j
    rw [List.count_cons] at hj
    rw [List.map_append, List.count_append, List.map_cons, List.map_nil, List.count_singleton, hj]
    dsimp only
    omega
  bound := h.bound
  listening := h.listening
  unique := h.unique
  ctxBound := h.ctxBound
  freedBound := h.freedBound
  ctxInj := h.ctxInj
  fresh := h.fresh
  serving := by
    intro p hp
    rcases List.mem_append.mp hp with hp | hp
    · exact h.serving p hp
    · obtain rfl := List.mem_singleton.mp hp
      exact ⟨haddr, htls, hctx⟩
  shielded := h.shielded

/-! ### Certificates -/

/-- A listener of which only the context and the host name may have changed. -/
def SamePort (l l' : Listener) : Prop :=
  l'.sockaddr = l.sockaddr ∧ l'.listening = l.listening ∧ l'.tls = l.tls ∧ l'.refcnt = l.refcnt

/-- A listener gets a context that was allocated for it, or none and its own one is freed. -/
theorem Sound.setCtx (h : Sound m binds held serving) {l : Listener}
    (hpos : 0 < (m.listeners i).refcnt) (hsame : SamePort (m.listeners i) l)
    (hset : m'.listeners = Function.update m.listeners i l) (hcount : m'.count = m.count)
    (hctxCount : m.ctxCount ≤ m'.ctxCount)
    (hctx : ∀ ctx, l.sslServerCtx = some ctx → ctx < m'.ctxCount ∧ m.ctxCount ≤ ctx)
    (hfreed : ∀ ctx ∈ m'.freed, ctx ∈ m.freed ∨ (m.listeners i).sslServerCtx = some ctx)
    (hserving : ∀ p ∈ serving, p.1 = i → l.tls = true → l.sslServerCtx ≠ none) :
    Sound m' binds held serving := by
  obtain ⟨haddr, hlistening, htls, hrefcnt⟩ := hsame
  refine h.set hset ?_ hcount.ge hctxCount ?_ (fun _ _ => rfl) ?_ ?_ hfreed ?_ ?_ ?_
  · rw [hcount]
    exact h.lt_count hpos
  · rw [hrefcnt, h.refcnt i]
  · rw [hlistening, hrefcnt, haddr]
    intro hopen
    exact ⟨hpos, fun j hne hopen' haddr' => hne (h.unique j i hopen' hopen haddr')⟩
  · intro ctx hl
    exact ⟨(hctx ctx hl).1, .inr (hctx ctx hl).2⟩
  · intro _ _ ctx hl hmem
    rcases hfreed ctx hmem with hmem | hown
    · exact absurd (h.freedBound ctx hmem) (Nat.not_lt.mpr (hctx ctx hl).2)
    · exact absurd (h.ctxBound i ctx hown) (Nat.not_lt.mpr (hctx ctx hl).2)
  · intro p hp heq
    subst heq
    obtain ⟨hp1, hp2, -⟩ := h.serving p hp
    rw [haddr]
    exact ⟨hp1, htls.trans hp2, hserving p hp rfl⟩
  · intro _ b hb
    rw [Listener.Shields, htls, haddr]
    exact h.shielded i hpos b hb

/-- What `listener_setup_tls` leaves: the same port, with a context if it has succeeded. -/
structure SetUp (m : ListenerMem) (i : ℕ) (m' : ListenerMem) (ok : Bool) : Prop where
  same : SamePort (m.listeners i) (m'.listeners i)
  ctx : ok = true → (m'.listeners i).sslServerCtx ≠ none

theorem Sound.loadCerts (h : Sound m binds held serving) (hpos : 0 < (m.listeners i).refcnt)
    {config : ConfigBind} {env : TlsEnv}
    (hcerts : env.certs = true ∨ ∀ p ∈ serving, p.1 ≠ i) {ok : Bool}
    (hr : m.listenerLoadCerts i config env = some (m', ok)) :
    Sound m' binds held serving ∧ SetUp m i m' ok := by
  unfold listenerLoadCerts at hr
  split at hr
  · next ctx _ _ hctx _ _ =>
    split at hr
    · contradiction
    · split at hr
      · obtain ⟨rfl, rfl⟩ := Prod.mk.inj (Option.some.inj hr)
        refine ⟨h, ⟨rfl, rfl, rfl, rfl⟩, fun _ => ?_⟩
        rw [hctx]
        exact Option.some_ne_none ctx
      · next hfail =>
        obtain ⟨rfl, rfl⟩ := Prod.mk.inj (Option.some.inj hr)
        have hserving := hcerts.resolve_left hfail
        have hset : ((m.set i { m.listeners i with sslServerCtx := none }).sslCtxFree
            (some ctx)).listeners = Function.update m.listeners i
              { m.listeners i with sslServerCtx := none } := rfl
        refine ⟨h.setCtx (l := { m.listeners i with sslServerCtx := none }) hpos
          ⟨rfl, rfl, rfl, rfl⟩ hset rfl le_rfl ?_ ?_ ?_, ?_, ?_⟩
        · intro ctx' hctx'
          contradiction
        · intro ctx' hmem
          rcases List.mem_cons.mp hmem with rfl | hmem
          · exact .inr hctx
          · exact .inl hmem
        · exact fun p hp heq => absurd heq (hserving p hp)
        · rw [hset, Function.update_self]
          exact ⟨rfl, rfl, rfl, rfl⟩
        · intro hok
          contradiction
  · contradiction

theorem Sound.setupTls (h : Sound m binds held serving) (hpos : 0 < (m.listeners i).refcnt)
    (htls : (m.listeners i).tls = true) {config : ConfigBind} {env : TlsEnv}
    (hcerts : env.certs = true ∨ ∀ p ∈ serving, p.1 ≠ i) {ok : Bool}
    (hr : m.listenerSetupTls i config env = some (m', ok)) :
    Sound m' binds held serving ∧ SetUp m i m' ok := by
  unfold listenerSetupTls at hr
  split at hr
  · exact h.loadCerts hpos hcerts hr
  · next hnone =>
    have hset : (m.newCtx i config env).listeners = Function.update m.listeners i
        ((m.newCtx i config env).listeners i) := by
      simp only [newCtx, ListenerMem.set, Function.update_self]
    have hself : SamePort (m.listeners i) ((m.newCtx i config env).listeners i) := by
      simp only [newCtx, ListenerMem.set, Function.update_self]
      exact ⟨rfl, rfl, rfl, rfl⟩
    have hctx : ((m.newCtx i config env).listeners i).sslServerCtx = some m.ctxCount := by
      simp only [newCtx, ListenerMem.set, Function.update_self]
    have hnew : Sound (m.newCtx i config env) binds held serving := by
      refine h.setCtx hpos hself hset rfl (Nat.le_succ _) ?_ (fun _ hmem => .inl hmem) ?_
      · intro ctx hctx'
        rw [hctx] at hctx'
        obtain rfl := Option.some.inj hctx'
        exact ⟨Nat.lt_succ_self _, le_rfl⟩
      · rintro p hp rfl
        exact absurd hnone ((h.serving p hp).2.2 htls)
    split at hr
    · split at hr
      · obtain ⟨rfl, rfl⟩ := Prod.mk.inj (Option.some.inj hr)
        exact ⟨hnew, hself, fun hok => by contradiction⟩
      · have hpos' : 0 < ((m.newCtx i config env).listeners i).refcnt := by
          rw [hself.2.2.2]
          exact hpos
        obtain ⟨hsound, hsame, hok⟩ := hnew.loadCerts hpos' hcerts hr
        refine ⟨hsound, ?_, hok⟩
        obtain ⟨h1, h2, h3, h4⟩ := hsame
        obtain ⟨h1', h2', h3', h4'⟩ := hself
        exact ⟨h1.trans h1', h2.trans h2', h3.trans h3', h4.trans h4'⟩
    · obtain ⟨rfl, rfl⟩ := Prod.mk.inj (Option.some.inj hr)
      exact ⟨h, ⟨rfl, rfl, rfl, rfl⟩, fun hok => by contradiction⟩

/-- A listener is taken over for an entry of its address. -/
theorem Sound.reuse (h : Sound m binds held serving) (hpos : 0 < (m.listeners i).refcnt)
    {config : ConfigBind}
    (hagree : ∀ b ∈ binds, b.sockaddr = some (m.listeners i).sockaddr → b.tls = config.tls)
    (hbinds : ∀ p ∈ serving, p.2 ∈ binds) : Sound (m.reuse i config) binds held serving := by
  dsimp only [ListenerMem.reuse]
  split
  · next hoff =>
    refine h.set (i := i) (l := { m.listeners i with tls := false }) ?_ ?_ ?_ ?_ ?_
      (fun _ _ => rfl) ?_ ?_ ?_ ?_ ?_ ?_
    · rw [listeners_sslCtxFree]
      rfl
    · rw [count_sslCtxFree]
      exact h.lt_count hpos
    · rw [count_sslCtxFree]
      exact le_rfl
    · rw [ctxCount_sslCtxFree]
      exact le_rfl
    · exact h.refcnt i
    · intro hopen
      exact ⟨hpos, fun j hne hopen' haddr => hne (h.unique j i hopen' hopen haddr)⟩
    · intro ctx hctx
      rw [ctxCount_sslCtxFree]
      exact ⟨h.ctxBound i ctx hctx, .inl hctx⟩
    · intro ctx hmem
      exact (mem_freed_sslCtxFree.mp hmem).symm
    · intro _ htls
      contradiction
    · rintro p hp rfl
      obtain ⟨haddr, -, -⟩ := h.serving p hp
      refine ⟨haddr, ?_, fun htls => by contradiction⟩
      rw [hagree p.2 (hbinds p hp) haddr]
      exact hoff.2.symm
    · intro _ b hb htls haddr
      rw [hagree b hb haddr, hoff.2] at htls
      contradiction
  · exact h


theorem reuse_self (config : ConfigBind) (htls : config.tls = true → (m.listeners i).tls = true) :
    ((m.reuse i config).listeners i).sockaddr = (m.listeners i).sockaddr ∧
      ((m.reuse i config).listeners i).tls = config.tls ∧
      ((m.reuse i config).listeners i).sslServerCtx = (m.listeners i).sslServerCtx := by
  dsimp only [ListenerMem.reuse]
  split
  · next hoff =>
    simp only [listeners_sslCtxFree, ListenerMem.set, Function.update_self, hoff.2, and_self]
  · next hkeep =>
    refine ⟨rfl, ?_, rfl⟩
    cases hc : config.tls with
    | true => exact htls hc
    | false =>
      cases hl : (m.listeners i).tls with
      | true => exact absurd ⟨hl, hc⟩ hkeep
      | false => rfl

/-! ### New listeners -/

/-- Nobody refers to a listener that is not allocated. -/
theorem Sound.count_eq_zero (h : Sound m binds held serving) :
    (serving.map Prod.fst).count m.count = 0 ∧ held.count m.count = 0 := by
  have hcount := h.refcnt m.count
  rw [h.bound m.count le_rfl] at hcount
  omega

theorem Sound.alloc (h : Sound m binds held serving) {sin : Sock × ℕ} {tls : Bool}
    (hagree : ∀ b ∈ binds, b.sockaddr = some sin → b.tls = tls) :
    Sound (m.alloc ⟨sin, false, tls, none, none, 1⟩) binds (m.count :: held) serving := by
  obtain ⟨hserving, hheld⟩ := h.count_eq_zero
  refine h.set rfl (Nat.lt_succ_self _) (Nat.le_succ _) le_rfl ?_ ?_ ?_ ?_ ?_ ?_ ?_ ?_
  · rw [List.count_cons_self, hserving, hheld]
  · intro j hne
    rw [List.count_cons_of_ne hne.symm]
  · intro hopen
    contradiction
  · intro ctx hctx
    contradiction
  · exact fun ctx hmem => .inl hmem
  · intro _ _ ctx hctx
    contradiction
  · rintro p hp heq
    have hpos : 0 < (serving.map Prod.fst).count m.count := by
      rw [← heq]
      exact List.count_pos_iff.mpr (List.mem_map_of_mem hp)
    rw [hserving] at hpos
    contradiction
  · intro _ b hb htls haddr
    rw [← hagree b hb haddr, htls]

theorem Sound.drop (h : Sound m binds (i :: held) serving) (hone : (m.listeners i).refcnt = 1)
    (hclosed : (m.listeners i).listening = false) : Sound (m.drop i) binds held serving := by
  have hpos : 0 < (m.listeners i).refcnt := h.refcnt_pos List.mem_cons_self
  have hcount := h.refcnt i
  rw [hone, List.count_cons_self] at hcount
  refine h.set rfl (h.lt_count hpos) le_rfl le_rfl ?_ ?_ ?_ ?_ ?_ ?_ ?_ ?_
  · change 0 = _
    omega
  · intro j hne
    rw [List.count_cons_of_ne hne.symm]
  · intro hopen
    rw [hclosed] at hopen
    contradiction
  · intro ctx hctx
    exact ⟨h.ctxBound i ctx hctx, .inl hctx⟩
  · exact fun ctx hmem => .inl hmem
  · intro hpos'
    contradiction
  · exact fun p hp heq => absurd heq (h.not_mem_serving hone hp)
  · intro hpos'
    contradiction

/-- What `listener_new` gives: a listener for the address, with a context if it has TLS. -/
structure Opened (m : ListenerMem) (i : ℕ) (sin : Sock × ℕ) (config : ConfigBind) : Prop where
  sockaddr : (m.listeners i).sockaddr = sin
  tls : (m.listeners i).tls = config.tls
  ctx : config.tls = true → (m.listeners i).sslServerCtx ≠ none

theorem Sound.listen (h : Sound m binds (i :: held) serving) {sin : Sock × ℕ} {config : ConfigBind}
    (hone : (m.listeners i).refcnt = 1) (hclosed : (m.listeners i).listening = false)
    (hopened : Opened m i sin config) (socket : Bool) :
    ((m.listen i socket).2 = none ∧ Sound (m.listen i socket).1 binds held serving) ∨
      ∃ j, (m.listen i socket).2 = some j ∧
        Sound (m.listen i socket).1 binds (j :: held) serving ∧
        Opened (m.listen i socket).1 j sin config := by
  have hpos : 0 < (m.listeners i).refcnt := h.refcnt_pos List.mem_cons_self
  by_cases hfree : socket = true ∧ ∀ j < m.count, (m.listeners j).listening = true →
      (m.listeners j).sockaddr ≠ (m.listeners i).sockaddr
  · have hlisten : m.listen i socket =
        (m.set i { m.listeners i with listening := true }, some i) := if_pos hfree
    refine .inr ⟨i, ?_⟩
    rw [hlisten]
    refine ⟨rfl, ?_, ?_⟩
    · refine h.set rfl (h.lt_count hpos) le_rfl le_rfl (h.refcnt i) (fun _ _ => rfl) ?_ ?_ ?_ ?_
        ?_ ?_
      · refine fun _ => ⟨hpos, fun j hne hopen => ?_⟩
        exact hfree.2 j (h.lt_count (h.listening j hopen)) hopen
      · intro ctx hctx
        exact ⟨h.ctxBound i ctx hctx, .inl hctx⟩
      · exact fun ctx hmem => .inl hmem
      · exact fun _ htls ctx hctx => h.fresh i ctx hpos htls hctx
      · exact fun p hp heq => absurd heq (h.not_mem_serving hone hp)
      · exact fun _ => h.shielded i hpos
    · obtain ⟨h1, h2, h3⟩ := hopened
      constructor
      · simp only [ListenerMem.set, Function.update_self, h1]
      · simp only [ListenerMem.set, Function.update_self, h2]
      · simp only [ListenerMem.set, Function.update_self]
        exact h3
  · have hlisten : m.listen i socket = (m.drop i, none) := if_neg hfree
    rw [hlisten]
    exact .inl ⟨rfl, h.drop hone hclosed⟩

/-- **`listener_new` opens the port of the entry, or nothing has changed** for all others. -/
theorem Sound.listenerNew (h : Sound m binds held serving) {config : ConfigBind} {sin : Sock × ℕ}
    {env : BindEnv} (hcerts : config.tls = true →
      config.tlsFullCertificateChain ≠ none ∧ config.tlsPrivateKey ≠ none)
    (hagree : ∀ b ∈ binds, b.sockaddr = some sin → b.tls = config.tls)
    {r : ListenerMem × Option ℕ} (hr : m.listenerNew config sin env = some r) :
    (r.2 = none ∧ Sound r.1 binds held serving) ∨
      ∃ i, r.2 = some i ∧ Sound r.1 binds (i :: held) serving ∧ Opened r.1 i sin config := by
  unfold ListenerMem.listenerNew at hr
  split at hr
  · dsimp only at hr
    have halloc := h.alloc hagree
    generalize hm₁ : m.alloc ⟨sin, false, config.tls, none, none, 1⟩ = m₁ at hr halloc
    have hself : m₁.listeners m.count = ⟨sin, false, config.tls, none, none, 1⟩ := by
      rw [← hm₁]
      exact Function.update_self _ _ _
    split at hr
    · next htls =>
      have hnotin : ∀ p ∈ serving, p.1 ≠ m.count :=
        fun p hp => halloc.not_mem_serving (by rw [hself]) hp
      split at hr
      · next m₂ hsetup =>
        obtain rfl := Option.some.inj hr
        obtain ⟨hsound, ⟨haddr, hclosed, htls', hone⟩, hctx⟩ :=
          halloc.setupTls (by rw [hself]; exact Nat.one_pos) (by rw [hself]; exact htls.1)
            (.inr hnotin) hsetup
        rw [hself] at haddr hclosed htls' hone
        exact hsound.listen hone hclosed ⟨haddr, htls', fun _ => hctx rfl⟩ env.socket
      · next m₂ hsetup =>
        obtain rfl := Option.some.inj hr
        obtain ⟨hsound, ⟨haddr, hclosed, htls', hone⟩, -⟩ :=
          halloc.setupTls (by rw [hself]; exact Nat.one_pos) (by rw [hself]; exact htls.1)
            (.inr hnotin) hsetup
        rw [hself] at haddr hclosed htls' hone
        exact .inl ⟨rfl, hsound.drop hone hclosed⟩
      · contradiction
    · next hplain =>
      obtain rfl := Option.some.inj hr
      have hoff : config.tls ≠ true := by
        intro htls
        obtain ⟨hchain, hkey⟩ := hcerts htls
        exact hplain
          ⟨htls, Option.isSome_iff_ne_none.mpr hchain, Option.isSome_iff_ne_none.mpr hkey⟩
      exact halloc.listen (by rw [hself]) (by rw [hself])
        ⟨by rw [hself], by rw [hself], fun htls => absurd htls hoff⟩ env.socket
  · obtain rfl := Option.some.inj hr
    exact .inl ⟨rfl, h⟩


end ListenerMem

/-! ### The reload -/

section Reload

open ListenerMem

variable {mem : ListenerMem} {binds : List ConfigBind} {held olddyn : List ℕ}
  {newListeners : List (ℕ × ConfigBind)} {config : ConfigBind} {env : BindEnv}

/-- What the entries of a reload must keep to, as far as one of them is concerned. -/
structure EntryOk (binds : List ConfigBind) (config : ConfigBind) : Prop where
  mem : config ∈ binds
  certs : config.tls = true → config.tlsFullCertificateChain ≠ none ∧ config.tlsPrivateKey ≠ none
  agree : ∀ b ∈ binds, b.sockaddr = config.sockaddr → b.tls = config.tls

/-- The new listeners are sound, and each one serves an entry of the configuration. -/
structure Progress (binds : List ConfigBind) (held : List ℕ) (acc : NewListeners) : Prop where
  sound : Sound acc.1 binds held acc.2
  binds : ∀ p ∈ acc.2, p.2 ∈ binds

theorem Progress.openListener {acc acc' : NewListeners} (h : Progress binds held acc)
    {sin : Sock × ℕ} (hsin : config.sockaddr = some sin) (hconfig : EntryOk binds config)
    (hr : openListener acc.1 acc.2 sin config env = some acc') : Progress binds held acc' := by
  have hagree : ∀ b ∈ binds, b.sockaddr = some sin → b.tls = config.tls := by
    intro b hb haddr
    exact hconfig.agree b hb (haddr.trans hsin.symm)
  unfold ChilopodCaster.openListener at hr
  split at hr
  · next mem i hnew =>
    obtain rfl := Option.some.inj hr
    rcases h.sound.listenerNew hconfig.certs hagree hnew with ⟨hnone, -⟩ | ⟨j, hsome, hsound, hj⟩
    · contradiction
    · obtain rfl := Option.some.inj hsome
      refine ⟨hsound.serve ?_ hj.tls ?_, ?_⟩
      · rw [hj.sockaddr]
        exact hsin
      · rw [hj.tls]
        exact hj.ctx
      · intro p hp
        rcases List.mem_append.mp hp with hp | hp
        · exact h.binds p hp
        · obtain rfl := List.mem_singleton.mp hp
          exact hconfig.mem
  · next mem hnew =>
    obtain rfl := Option.some.inj hr
    rcases h.sound.listenerNew hconfig.certs hagree hnew with ⟨-, hsound⟩ | ⟨j, hsome, -⟩
    · exact ⟨hsound, h.binds⟩
    · contradiction
  · contradiction

/-- A listener that is taken over serves the entry. -/
theorem Progress.reuse {newListeners : List (ℕ × ConfigBind)} {j : ℕ}
    (h : Sound mem binds (j :: held) newListeners) (hbinds : ∀ p ∈ newListeners, p.2 ∈ binds)
    (hconfig : EntryOk binds config) (haddr : config.sockaddr = some (mem.listeners j).sockaddr)
    (htls : config.tls = true → (mem.listeners j).tls = true)
    (hctx : config.tls = true → (mem.listeners j).sslServerCtx ≠ none) :
    Progress binds held (mem.reuse j config, newListeners ++ [(j, config)]) := by
  have hpos : 0 < (mem.listeners j).refcnt := h.refcnt_pos List.mem_cons_self
  obtain ⟨haddr', htls', hctx'⟩ := reuse_self config htls
  have hagree : ∀ b ∈ binds, b.sockaddr = some (mem.listeners j).sockaddr → b.tls = config.tls :=
    fun b hb hb' => hconfig.agree b hb (hb'.trans haddr.symm)
  refine ⟨(h.reuse hpos hagree hbinds).serve ?_ htls' ?_, ?_⟩
  · rw [haddr']
    exact haddr
  · rw [htls', hctx']
    exact hctx
  · intro p hp
    rcases List.mem_append.mp hp with hp | hp
    · exact hbinds p hp
    · obtain rfl := List.mem_singleton.mp hp
      exact hconfig.mem

/-- **One round of the loop.** The entry does not spoil what an earlier entry was given, as the
certificates of a later entry for the same port can be loaded. -/
theorem Progress.reloadListener {acc acc' : NewListeners} (h : Progress binds held acc)
    (hold : ∀ j ∈ olddyn, j ∈ held) (hconfig : config.sockaddr ≠ none → EntryOk binds config)
    (htwice : ∀ p ∈ acc.2, p.2.sockaddr = config.sockaddr → config.tls = true →
      env.recycle.certs = true)
    (hr : reloadListener olddyn acc (config, env) = some acc') : Progress binds held acc' := by
  obtain ⟨mem, newListeners⟩ := acc
  simp only [ChilopodCaster.reloadListener] at hr
  split at hr
  · obtain rfl := Option.some.inj hr
    exact h
  · next sin hsin =>
    have hok : EntryOk binds config := hconfig (by rw [hsin]; exact Option.some_ne_none sin)
    split at hr
    · exact h.openListener hsin hok hr
    · next j hfind =>
      have hj : j ∈ held := hold j (List.mem_of_find?_eq_some hfind)
      have haddr := List.find?_some hfind
      rw [decide_eq_true_iff] at haddr
      have hpos : 0 < (mem.listeners j).refcnt := h.sound.refcnt_pos hj
      have hincref : Sound (mem.listenerIncref j) binds (j :: held) newListeners :=
        h.sound.incref hpos
      have hself : (mem.listenerIncref j).listeners j =
          { mem.listeners j with refcnt := (mem.listeners j).refcnt + 1 } :=
        Function.update_self _ _ _
      have haddr' : config.sockaddr = some ((mem.listenerIncref j).listeners j).sockaddr := by
        rw [hself, hsin, ← haddr]
      split at hr
      · next htls =>
        have hshield : ((mem.listenerIncref j).listeners j).tls = true :=
          hincref.shielded j (hincref.refcnt_pos List.mem_cons_self) config hok.mem htls haddr'
        have hcerts : env.recycle.certs = true ∨ ∀ p ∈ newListeners, p.1 ≠ j := by
          by_cases hc : env.recycle.certs = true
          · exact .inl hc
          · refine .inr fun p hp heq => hc (htwice p hp ?_ htls)
            rw [(h.sound.serving p hp).1, heq, haddr, hsin]
        have hsetup : ∀ {mem' ok}, (mem.listenerIncref j).listenerSetupTls j config env.recycle =
            some (mem', ok) → Sound mem' binds (j :: held) newListeners ∧
              SetUp (mem.listenerIncref j) j mem' ok :=
          hincref.setupTls (hincref.refcnt_pos List.mem_cons_self) hshield hcerts
        split at hr
        · contradiction
        · next mem' hfail =>
          have hdecref : Sound (mem'.listenerDecref j) binds held newListeners :=
            (hsetup hfail).1.decref
          have hprogress : Progress binds held (mem'.listenerDecref j, newListeners) :=
            ⟨hdecref, h.binds⟩
          exact hprogress.openListener hsin hok hr
        · next mem' hdone =>
          obtain rfl := Option.some.inj hr
          obtain ⟨hsound, ⟨hsame, -, htls', -⟩, hctx⟩ := hsetup hdone
          refine Progress.reuse hsound h.binds hok ?_ ?_ ?_
          · rw [hsame]
            exact haddr'
          · rw [htls']
            exact fun _ => hshield
          · exact fun _ => hctx rfl
      · next hoff =>
        obtain rfl := Option.some.inj hr
        exact Progress.reuse hincref h.binds hok haddr' (fun htls => absurd htls hoff)
          (fun htls => absurd htls hoff)

theorem mem_openListener {acc' : NewListeners} {sin : Sock × ℕ}
    (hr : openListener mem newListeners sin config env = some acc') {p : ℕ × ConfigBind}
    (hp : p ∈ acc'.2) : p ∈ newListeners ∨ p.2 = config := by
  unfold openListener at hr
  split at hr
  · obtain rfl := Option.some.inj hr
    rcases List.mem_append.mp hp with hp | hp
    · exact .inl hp
    · exact .inr (by rw [List.mem_singleton.mp hp])
  · obtain rfl := Option.some.inj hr
    exact .inl hp
  · contradiction

/-- A new listener serves the entry of its round. -/
theorem mem_reloadListener {acc acc' : NewListeners}
    (hr : reloadListener olddyn acc (config, env) = some acc') {p : ℕ × ConfigBind}
    (hp : p ∈ acc'.2) : p ∈ acc.2 ∨ p.2 = config := by
  have hserve : ∀ {mem : ListenerMem} {j : ℕ},
      some (mem, acc.2 ++ [(j, config)]) = some acc' → p ∈ acc.2 ∨ p.2 = config := by
    intro mem j hr
    obtain rfl := Option.some.inj hr
    rcases List.mem_append.mp hp with hp | hp
    · exact .inl hp
    · exact .inr (by rw [List.mem_singleton.mp hp])
  obtain ⟨mem, newListeners⟩ := acc
  simp only [reloadListener] at hr
  split at hr
  · obtain rfl := Option.some.inj hr
    exact .inl hp
  · split at hr
    · exact mem_openListener hr hp
    · split at hr
      · split at hr
        · contradiction
        · exact mem_openListener hr hp
        · exact hserve hr
      · exact hserve hr

/-- The whole loop. -/
theorem Progress.foldlM {entries : List (ConfigBind × BindEnv)} {acc acc' : NewListeners}
    (h : Progress binds held acc) (hold : ∀ j ∈ olddyn, j ∈ held)
    (hentries : ∀ e ∈ entries, e.1.sockaddr ≠ none → EntryOk binds e.1)
    (htwice : entries.Pairwise fun e e' => e.1.sockaddr = e'.1.sockaddr → e.1.sockaddr ≠ none →
      e'.1.tls = true → e'.2.recycle.certs = true)
    (hearlier : ∀ p ∈ acc.2, ∀ e ∈ entries, p.2.sockaddr = e.1.sockaddr → e.1.tls = true →
      e.2.recycle.certs = true)
    (hr : entries.foldlM (ChilopodCaster.reloadListener olddyn) acc = some acc') :
    Progress binds held acc' := by
  induction entries generalizing acc with
  | nil =>
    obtain rfl := Option.some.inj hr
    exact h
  | cons e entries ih =>
    rw [List.foldlM_cons] at hr
    obtain ⟨acc₁, hround, hr⟩ := Option.bind_eq_some_iff.mp hr
    have hnext : Progress binds held acc₁ :=
      h.reloadListener hold (hentries e List.mem_cons_self)
        (fun p hp => hearlier p hp e List.mem_cons_self) hround
    refine ih hnext (fun e' he' => hentries e' (List.mem_cons_of_mem e he')) htwice.of_cons ?_ hr
    intro p hp e' he' haddr htls
    rcases mem_reloadListener hround hp with hp | hp
    · exact hearlier p hp e' (List.mem_cons_of_mem e he') haddr htls
    · have hvalid : e.1.sockaddr ≠ none := by
        rw [← hp]
        rw [(hnext.sound.serving p ‹p ∈ acc₁.2›).1]
        exact Option.some_ne_none _
      rw [hp] at haddr
      exact List.rel_of_pairwise_cons htwice he' haddr hvalid htls

end Reload

/-! ### Runs -/

namespace Listening

variable {this that : Listening}

/-- The invariant between reloads. -/
structure Tight (this : Listening) : Prop where
  sound : this.mem.Sound this.binds this.old.flatten this.live

theorem tight_new : new.Tight := by
  constructor
  constructor <;> simp [new]

/-- A listener of the live configuration is held by it as an old one from now on. -/
theorem Tight.retire (h : this.Tight) (binds : List ConfigBind)
    (hshielded : ∀ i, 0 < (this.mem.listeners i).refcnt →
      ∀ b ∈ binds, (this.mem.listeners i).Shields b) :
    this.mem.Sound binds (this.live.map Prod.fst ++ this.old.flatten) [] where
  refcnt i := by
    rw [h.sound.refcnt i, List.map_nil, List.count_nil, List.count_append, Nat.zero_add]
  bound := h.sound.bound
  listening := h.sound.listening
  unique := h.sound.unique
  ctxBound := h.sound.ctxBound
  freedBound := h.sound.freedBound
  ctxInj := h.sound.ctxInj
  fresh := h.sound.fresh
  serving p hp := by contradiction
  shielded := hshielded

theorem Tight.reload (h : this.Tight) {memory : Bool} {entries : List (ConfigBind × BindEnv)}
    (hapart : this.Apart entries) {r : Listening × ℤ}
    (hr : this.casterReloadListeners memory entries = some r) : r.1.Tight := by
  have hshielded : ∀ i, 0 < (this.mem.listeners i).refcnt →
      ∀ b ∈ entries.map Prod.fst, (this.mem.listeners i).Shields b := by
    intro i hpos b hb
    obtain ⟨e, he, rfl⟩ := List.mem_map.mp hb
    exact hapart.tls i (h.sound.lt_count hpos) hpos e he
  have hretired := h.retire (entries.map Prod.fst) hshielded
  simp only [casterReloadListeners] at hr
  split at hr
  · obtain rfl := Option.some.inj hr
    exact ⟨hretired⟩
  · split at hr
    · contradiction
    · next mem newListeners hfold =>
      obtain rfl := Option.some.inj hr
      have hnone : Progress (entries.map Prod.fst)
          (this.live.map Prod.fst ++ this.old.flatten) (this.mem, []) :=
        ⟨hretired, fun p hp => by contradiction⟩
      refine ⟨(hnone.foldlM (fun j hj => List.mem_append_left _ hj) ?_ hapart.twice
        (fun p hp => by contradiction) hfold).sound⟩
      intro e he hvalid
      refine ⟨List.mem_map_of_mem he, fun htls => hapart.certs e he htls hvalid, ?_⟩
      intro b hb haddr
      obtain ⟨e', he', rfl⟩ := List.mem_map.mp hb
      exact hapart.agree e' he' e he haddr (by rw [haddr]; exact hvalid)

theorem Tight.release (h : this.Tight) {k : ℕ} (hr : this.dynconfigFreeListeners k = some that) :
    that.Tight := by
  unfold dynconfigFreeListeners at hr
  split at hr
  · next ids hids =>
    obtain rfl := Option.some.inj hr
    obtain ⟨hk, rfl⟩ := List.getElem?_eq_some_iff.mp hids
    have hperm : this.old.flatten.Perm (this.old[k] ++ (this.old.eraseIdx k).flatten) := by
      rw [← List.flatten_cons]
      exact (List.getElem_cons_eraseIdx_perm hk).symm.flatten
    have hsound := h.sound
    refine ⟨ListenerMem.Sound.foldl_decref ?_⟩
    exact ⟨fun i => by rw [hsound.refcnt i, hperm.count_eq], hsound.bound, hsound.listening,
      hsound.unique, hsound.ctxBound, hsound.freedBound, hsound.ctxInj, hsound.fresh,
      hsound.serving, hsound.shielded⟩
  · contradiction

/-- Reloads are made of entries that keep apart. -/
def Kept (this : Listening) : ListenStep → Prop
  | .reload _ entries => this.Apart entries
  | .release _ => True

def Initial (this : Listening) : Prop := this = new

theorem Tight.step (h : this.Tight) {l : ListenStep} (hkept : this.Kept l)
    (hstep : this.step l = some that) : that.Tight := by
  cases l with
  | reload memory entries =>
    obtain ⟨r, hr, rfl⟩ := Option.map_eq_some_iff.mp hstep
    exact h.reload hkept hr
  | release k => exact h.release hstep

theorem Tight.encrypted (h : this.Tight) : this.Encrypted where
  tls p hp := (h.sound.serving p hp).2.1
  ctx p hp htls := by
    obtain ⟨ctx, hctx⟩ := Option.ne_none_iff_exists'.mp ((h.sound.serving p hp).2.2 htls)
    refine ⟨ctx, hctx, h.sound.fresh p.1 ctx ?_ htls hctx⟩
    rw [h.sound.refcnt p.1]
    exact Nat.add_pos_left (List.count_pos_iff.mpr (List.mem_map_of_mem hp)) _
  clear i hopen b hb htls haddr := by
    have hon := h.sound.shielded i (h.sound.listening i hopen) b hb htls haddr
    unfold ntripsrvListenerCb
    rw [if_pos hon]
    split <;> exact fun h => by contradiction

/-- **Ports are served as configured in every run whose reloads keep apart**: TLS is asked for with
a certificate and a key, and never at an address that a configuration still has open without TLS.
Such a port would be taken over as it is, or keep the address to itself. -/
theorem reachable_encrypted (h : Transition.Reachable Initial Kept step this) :
    this.Encrypted := by
  refine Tight.encrypted (h.invariant ?_ fun s l s' hs hkept hstep => hs.step hkept hstep)
  rintro s rfl
  exact tight_new

instance (this : Listening) (entries : List (ConfigBind × BindEnv)) :
    Decidable (this.Apart entries) :=
  decidable_of_iff
    ((∀ e ∈ entries, e.1.tls = true → e.1.sockaddr ≠ none →
        e.1.tlsFullCertificateChain ≠ none ∧ e.1.tlsPrivateKey ≠ none) ∧
      (∀ i < this.mem.count, 0 < (this.mem.listeners i).refcnt →
        ∀ e ∈ entries, (this.mem.listeners i).Shields e.1) ∧
      (∀ e ∈ entries, ∀ e' ∈ entries, e.1.sockaddr = e'.1.sockaddr → e.1.sockaddr ≠ none →
        e.1.tls = e'.1.tls) ∧
      entries.Pairwise fun e e' => e.1.sockaddr = e'.1.sockaddr → e.1.sockaddr ≠ none →
        e'.1.tls = true → e'.2.recycle.certs = true)
    ⟨fun ⟨certs, tls, agree, twice⟩ => ⟨certs, tls, agree, twice⟩,
      fun h => ⟨h.certs, h.tls, h.agree, h.twice⟩⟩

instance (this : Listening) (l : ListenStep) : Decidable (this.Kept l) :=
  match l with
  | .reload _ entries => inferInstanceAs (Decidable (this.Apart entries))
  | .release _ => inferInstanceAs (Decidable True)

/-- An entry for one port of the loopback address, when nothing fails. -/
def loopback (port : ℕ) (tls : Bool) : ConfigBind × BindEnv :=
  (⟨cstr "127.0.0.1", port, tls, some (cstr "chain.pem"), some (cstr "key.pem"), none⟩,
    ⟨⟨true, true, true⟩, true, ⟨true, true, true⟩, true⟩)

/-- A port with TLS is kept over a reload that adds another one, and the old configuration is
freed. -/
theorem reachable_encrypted_kept :
    ∃ this : Listening, this.Encrypted ∧ this.live.map Prod.fst = [0, 1] ∧
      this.ntripsrvListenerCb 0 = .tls 0 ∧ this.ntripsrvListenerCb 1 = .clear := by
  have hobserve : (([.reload true [loopback 2102 true], .reload true [loopback 2102 true,
      loopback 2101 false], .release 1, .release 0] : List ListenStep).foldlM
      (fun (s : Listening) l => if s.Kept l then s.step l else none) new).map
      (fun s => (s.live.map Prod.fst, s.ntripsrvListenerCb 0, s.ntripsrvListenerCb 1)) =
      some ([0, 1], .tls 0, .clear) := by
    decide +kernel
  obtain ⟨this, hrun, hthis⟩ := Option.map_eq_some_iff.mp hobserve
  have hreach : Transition.Reachable Initial Kept step this :=
    Transition.reachable_of_foldlM (.refl rfl) hrun
  obtain ⟨hlive, hrest⟩ := Prod.mk.inj hthis
  obtain ⟨hfirst, hsecond⟩ := Prod.mk.inj hrest
  exact ⟨this, reachable_encrypted hreach, hlive, hfirst, hsecond⟩

/-- A port is configured without TLS, and then with it. Its listener is taken over, gets the
certificate, and goes on in clear text. -/
theorem not_encrypted_switchedOn :
    ¬ ∀ this : Listening, Transition.Reachable Initial (fun _ _ => True) step this →
      this.Encrypted := by
  intro hall
  have hobserve : (([.reload true [loopback 2101 false], .reload true [loopback 2101 true]] :
      List ListenStep).foldlM (fun (s : Listening) l => if True then s.step l else none) new).map
      (fun s => (s.live, (s.mem.listeners 0).tls)) =
      some ([(0, (loopback 2101 true).1)], false) := by
    decide +kernel
  obtain ⟨this, hrun, hthis⟩ := Option.map_eq_some_iff.mp hobserve
  have hreach : Transition.Reachable Initial (fun _ _ => True) step this :=
    Transition.reachable_of_foldlM (.refl rfl) hrun
  obtain ⟨hlive, htls⟩ := Prod.mk.inj hthis
  have hserved := (hall this hreach).tls (0, (loopback 2101 true).1)
    (by rw [hlive]; exact List.mem_cons_self)
  rw [htls] at hserved
  contradiction

end Listening

end ChilopodCaster
