import Mathlib.Logic.Function.Basic
import Mathlib.Data.List.Forall2
import Mathlib.Data.List.Perm.Basic
import ChilopodCaster.SourcetableStack
import ChilopodCaster.Lib.Transition

/-!
# Fetchers of sourcetables

A proxy entry of the configuration has a fetcher, which puts the table of another caster into the
stack again and again. A reload takes over the fetcher of the old configuration if neither of them
filters the table; else the new configuration gets a fetcher of its own for the same caster.

A fetcher that is freed takes the table of its caster out of the stack, whoever has put it there.
That happens when the last session has dropped the configuration, long after the reload.

## Main definitions

* `FetchMem` — the fetchers and the stack
* `Fetching.casterReloadFetchers` — `caster_reload_fetchers`, and what is started after it
* `Fetching.dynconfigFreeFetchers` — an old configuration is freed
* `Fetching.Alone` — a table is loaded by the only fetcher that its caster has

## Main results

* `Fetching.reachable_leaves` — in such a run, to free a configuration leaves the live tables
* `Fetching.not_leaves_filtered` — a table lost after its entry got a filter
-/

namespace ChilopodCaster

/-- `struct config_proxy`. -/
structure ConfigProxy where
  host : CString
  port : BitVec 16
  tls : Bool
  tableRefreshDelay : ℤ
  priority : ℤ
  filterFilename : Option CString
  deriving DecidableEq, Repr

/-- `struct sourcetable_fetch_args`, with the fields of its task. `json` tells if it has a filter,
`running` if the task has been started; `loaded` is not in the source: it is the last table that the
fetcher has put into the stack. -/
structure Fetcher (F : Type) where
  host : CString
  port : BitVec 16
  tls : Bool
  refreshDelay : ℤ
  priority : ℤ
  json : Bool
  running : Bool
  refcnt : ℕ
  loaded : Option (Sourcetable F)

/-- The caster that is asked. -/
def Fetcher.address {F : Type} (this : Fetcher F) : CString × BitVec 16 := (this.host, this.port)

/-- The fetchers allocated, and the stack. -/
structure FetchMem (F : Type) where
  fetchers : ℕ → Fetcher F
  count : ℕ
  stack : Stack F

/-- The system's answers for one entry: there is memory, and the filter can be read. -/
structure FetchEnv where
  memory : Bool
  json : Bool
  deriving DecidableEq, Repr

namespace FetchMem

variable {F : Type}

def set (this : FetchMem F) (i : ℕ) (f : Fetcher F) : FetchMem F :=
  { this with fetchers := Function.update this.fetchers i f }

/-- `fetcher_sourcetable_new`. -/
def fetcherSourcetableNew (this : FetchMem F) (proxy : ConfigProxy) (env : FetchEnv) :
    FetchMem F × Option ℕ :=
  if env.memory = true ∧ (proxy.filterFilename.isSome → env.json = true) then
    ({ this.set this.count
        { host := proxy.host
          port := proxy.port
          tls := proxy.tls
          refreshDelay := proxy.tableRefreshDelay
          priority := proxy.priority
          json := proxy.filterFilename.isSome
          running := false
          refcnt := 1
          loaded := none } with
      count := this.count + 1 }, some this.count)
  else (this, none)

def fetcherSourcetableIncref (this : FetchMem F) (i : ℕ) : FetchMem F :=
  this.set i { this.fetchers i with refcnt := (this.fetchers i).refcnt + 1 }

/-- `fetcher_sourcetable_free`: the task is stopped, and the table leaves the stack. -/
def fetcherSourcetableFree (this : FetchMem F) (i : ℕ) : FetchMem F :=
  let f := this.fetchers i
  { this.set i { f with running := false } with
    stack := this.stack.replaceHost f.host (f.port.setWidth 32) none }

def fetcherSourcetableDecref (this : FetchMem F) (i : ℕ) : FetchMem F :=
  let f := this.fetchers i
  let this := this.set i { f with refcnt := f.refcnt - 1 }
  if f.refcnt = 1 then this.fetcherSourcetableFree i else this

/-- The entry in `dynconfig_free_fetchers`. -/
def release (this : FetchMem F) : Option ℕ → FetchMem F
  | some i => this.fetcherSourcetableDecref i
  | none => this

/-- The fetcher of the old configuration that an entry can have. -/
def recyclable (this : FetchMem F) (olddyn : List (Option ℕ)) (proxy : ConfigProxy) : Option ℕ :=
  if proxy.filterFilename = none then
    olddyn.findSome? fun o => o.filter fun j =>
      (this.fetchers j).host = proxy.host ∧ (this.fetchers j).port = proxy.port ∧
        (this.fetchers j).json = false
  else none

/-- One round of the loop of `caster_reload_fetchers`. -/
def reloadFetcher (olddyn : List (Option ℕ)) (acc : FetchMem F × List (Option ℕ))
    (entry : ConfigProxy × FetchEnv) : FetchMem F × List (Option ℕ) :=
  match acc.1.recyclable olddyn entry.1 with
  | some j => (acc.1.fetcherSourcetableIncref j, acc.2 ++ [some j])
  | none =>
    let (mem, p) := acc.1.fetcherSourcetableNew entry.1 entry.2
    (mem, acc.2 ++ [p])

/-- One round of the loop of `caster_start_fetchers`: the task is started, or stopped and started
again with the delay and the priority of the entry. -/
def startFetcher (this : FetchMem F) (entry : ConfigProxy × Option ℕ) : FetchMem F :=
  match entry.2 with
  | some i =>
    this.set i { this.fetchers i with
      running := true
      refreshDelay := entry.1.tableRefreshDelay
      priority := entry.1.priority }
  | none => this

end FetchMem

/-- The fetchers of the live configuration, and those of the old ones that are still held. -/
structure Fetching (F : Type) where
  mem : FetchMem F
  live : List (Option ℕ)
  old : List (List (Option ℕ))

inductive FetchStep (F : Type)
  /-- A reload, with the local table if it could be read. -/
  | reload (localTable : Option (Sourcetable F)) (entries : List (ConfigProxy × FetchEnv))
  /-- A fetcher has received a table to its end, with the lines that its filter lets through. -/
  | fetched (i : ℕ) (lines : List CString) (now : Timeval)
  /-- Another node sends a table. -/
  | sync (j : Json)
  /-- An old configuration is freed. -/
  | release (k : ℕ)

namespace Fetching

variable {F : Type} (scanFloat : CString → Option F) (text : Json → CString)
  (isoDate : CString → Option Timeval)

/-- `caster_reload_sourcetables`, `caster_reload_fetchers` and `caster_start_fetchers`, in a reload.
The array of fetchers is taken to be allocated. -/
def casterReloadFetchers (this : Fetching F) (localTable : Option (Sourcetable F))
    (entries : List (ConfigProxy × FetchEnv)) : Fetching F :=
  let mem := match localTable with
    | some table => { this.mem with stack := this.mem.stack.replaceLocal (some table) }
    | none => this.mem
  let (mem, newFetchers) := entries.foldl (FetchMem.reloadFetcher this.live) (mem, [])
  { mem := ((entries.map Prod.fst).zip newFetchers).foldl FetchMem.startFetcher mem
    live := newFetchers
    old := this.live :: this.old }

/-- `sourcetable_line_cb` at the end of the table. An error in a line gives up the table. -/
def sourcetableLineCb (this : Fetching F) (i : ℕ) (lines : List CString) (now : Timeval) :
    Option (Fetching F) :=
  let f := this.mem.fetchers i
  if f.running = true ∧ 0 < f.refcnt then
    match Sourcetable.fetch scanFloat f.host f.port f.tls f.priority lines now with
    | some table =>
      some { this with
        mem := { this.mem.set i { f with loaded := some table } with
          stack := this.mem.stack.replaceHost f.host (f.port.setWidth 32) (some table) } }
    | none => some this
  else none

/-- `dynconfig_free_fetchers`, for an old configuration. -/
def dynconfigFreeFetchers (this : Fetching F) (k : ℕ) : Option (Fetching F) :=
  match this.old[k]? with
  | some ids =>
    some { this with mem := ids.foldl FetchMem.release this.mem, old := this.old.eraseIdx k }
  | none => none

def step (this : Fetching F) : FetchStep F → Option (Fetching F)
  | .reload localTable entries => some (this.casterReloadFetchers localTable entries)
  | .fetched i lines now => this.sourcetableLineCb scanFloat i lines now
  | .sync j => (this.mem.stack.updateExecute scanFloat text isoDate j).map fun r =>
      { this with mem := { this.mem with stack := r.2 } }
  | .release k => this.dynconfigFreeFetchers k

/-- Before the first load. -/
def new : Fetching F where
  mem := ⟨fun _ => ⟨[], 0, false, 0, 0, false, false, 0, none⟩, 0, []⟩
  live := []
  old := []

def Initial (this : Fetching F) : Prop := this = new

/-- The tables that the fetchers of the live configuration have put into the stack stay there. -/
def Leaves (this that : Fetching F) : Prop :=
  ∀ i, some i ∈ this.live → ∀ table, (this.mem.fetchers i).loaded = some table →
    table ∈ this.mem.stack → table ∈ that.mem.stack

/-- A configuration has one entry at most for a caster, and a table is loaded only while no
configuration has another fetcher for that caster. -/
def Alone (this : Fetching F) : FetchStep F → Prop
  | .reload _ entries => (entries.map fun e => (e.1.host, e.1.port)).Nodup
  | .fetched i _ _ => ∀ j < this.mem.count, j ≠ i → 0 < (this.mem.fetchers j).refcnt →
      (this.mem.fetchers j).address ≠ (this.mem.fetchers i).address
  | _ => True

end Fetching

/-! ### The invariant of the memory -/

namespace FetchMem

variable {F : Type} {m m' : FetchMem F} {live held : List (Option ℕ)} {i : ℕ}

/-- The references are those of the live configuration and of the old ones. A fetcher of the live
configuration that has loaded a table is the only one for its caster. -/
structure Lone (m : FetchMem F) (live held : List (Option ℕ)) : Prop where
  refcnt : ∀ i, (m.fetchers i).refcnt = live.count (some i) + held.count (some i)
  bound : ∀ i, m.count ≤ i → (m.fetchers i).refcnt = 0 ∧ (m.fetchers i).loaded = none
  origin : ∀ i table, (m.fetchers i).loaded = some table →
    table.caster = some (m.fetchers i).host ∧ table.port = (m.fetchers i).port
  alone : ∀ i, some i ∈ live → (m.fetchers i).loaded ≠ none → ∀ j, j ≠ i →
    0 < (m.fetchers j).refcnt → (m.fetchers j).address ≠ (m.fetchers i).address

/-- The same fetchers, but for what their tasks are doing. -/
def SameFetchers (m m' : FetchMem F) : Prop :=
  m'.count = m.count ∧ ∀ i, (m'.fetchers i).address = (m.fetchers i).address ∧
    (m'.fetchers i).loaded = (m.fetchers i).loaded ∧ (m'.fetchers i).refcnt = (m.fetchers i).refcnt

theorem Lone.congr (h : Lone m live held) (hsame : SameFetchers m m') : Lone m' live held := by
  obtain ⟨hcount, hsame⟩ := hsame
  constructor
  · intro i
    rw [(hsame i).2.2, h.refcnt i]
  · intro i hle
    rw [(hsame i).2.2, (hsame i).2.1]
    exact h.bound i (hcount ▸ hle)
  · intro i table hloaded
    obtain ⟨haddress, hloaded', -⟩ := hsame i
    obtain ⟨hhost, hport⟩ := Prod.mk.inj haddress
    rw [hhost, hport]
    exact h.origin i table (hloaded'.symm.trans hloaded)
  · intro i hi hloaded j hne hpos
    rw [(hsame j).1, (hsame i).1]
    rw [(hsame i).2.1] at hloaded
    rw [(hsame j).2.2] at hpos
    exact h.alone i hi hloaded j hne hpos

theorem Lone.lt_count (h : Lone m live held) (hi : 0 < (m.fetchers i).refcnt) : i < m.count := by
  by_contra hle
  rw [(h.bound i (Nat.le_of_not_lt hle)).1] at hi
  exact absurd hi (lt_irrefl 0)

/-- Only the table of the host and port is taken out. -/
theorem mem_replaceHost_none {stack : Stack F} {host : CString} {port : BitVec 16}
    {table : Sourcetable F} (hmem : table ∈ stack)
    (hne : ¬ (table.caster = some host ∧ table.port = port)) :
    table ∈ stack.replaceHost host (port.setWidth 32) none := by
  have hkeep : ¬ Stack.Replaced (some host) (port.setWidth 32) false table := by
    rw [Stack.replaced_host_iff]
    rintro ⟨-, hcaster, hport⟩
    refine hne ⟨hcaster, ?_⟩
    have hport' := congrArg BitVec.toNat hport
    rw [BitVec.toNat_setWidth_of_le (by decide), BitVec.toNat_setWidth_of_le (by decide)] at hport'
    exact BitVec.eq_of_toNat_eq hport'
  unfold Stack.replaceHost Stack.replace
  split
  · exact hmem
  · contradiction
  · refine (List.mem_eraseP_of_neg ?_).mpr hmem
    simpa using hkeep
  · contradiction

/-- What a dropped reference changes: the count, and the stack if it was the last one. -/
theorem fetcherSourcetableDecref_cases (m : FetchMem F) (i : ℕ) :
    ∃ f, (m.fetcherSourcetableDecref i).fetchers = Function.update m.fetchers i f ∧
      f.address = (m.fetchers i).address ∧ f.loaded = (m.fetchers i).loaded ∧
      f.refcnt = (m.fetchers i).refcnt - 1 ∧
      (m.fetcherSourcetableDecref i).count = m.count ∧
      ((m.fetcherSourcetableDecref i).stack = m.stack ∨ (m.fetchers i).refcnt = 1 ∧
        (m.fetcherSourcetableDecref i).stack =
          m.stack.replaceHost (m.fetchers i).host ((m.fetchers i).port.setWidth 32) none) := by
  by_cases hlast : (m.fetchers i).refcnt = 1
  · have hdecref : m.fetcherSourcetableDecref i = (m.set i { m.fetchers i with
        refcnt := (m.fetchers i).refcnt - 1 }).fetcherSourcetableFree i := if_pos hlast
    rw [hdecref]
    refine ⟨{ m.fetchers i with refcnt := (m.fetchers i).refcnt - 1, running := false }, ?_, rfl,
      rfl, rfl, rfl, .inr ⟨hlast, ?_⟩⟩
    · simp only [fetcherSourcetableFree, FetchMem.set, Function.update_self, Function.update_idem]
    · simp only [fetcherSourcetableFree, FetchMem.set, Function.update_self]
  · have hdecref : m.fetcherSourcetableDecref i = m.set i { m.fetchers i with
        refcnt := (m.fetchers i).refcnt - 1 } := if_neg hlast
    rw [hdecref]
    exact ⟨_, rfl, rfl, rfl, rfl, rfl, .inl rfl⟩

theorem fetchers_cases {f : Fetcher F} (hset : m'.fetchers = Function.update m.fetchers i f)
    (j : ℕ) : j = i ∧ m'.fetchers j = f ∨ j ≠ i ∧ m'.fetchers j = m.fetchers j := by
  rw [hset]
  by_cases hne : j = i
  · subst hne
    exact .inl ⟨rfl, Function.update_self _ _ _⟩
  · exact .inr ⟨hne, Function.update_of_ne hne _ _⟩

/-- The tables of the live configuration are in the stack of `m'` if they are in that of `m`. -/
def LeavesTables (m m' : FetchMem F) (live : List (Option ℕ)) : Prop :=
  ∀ i, some i ∈ live → ∀ table, (m.fetchers i).loaded = some table → table ∈ m.stack →
    table ∈ m'.stack

/-- **A reference is dropped.** If it was the last one, the fetcher is not one of the live
configuration, and no fetcher of that one which has loaded a table asks the same caster. -/
theorem Lone.decref (h : Lone m live (some i :: held)) :
    Lone (m.fetcherSourcetableDecref i) live held ∧
      LeavesTables m (m.fetcherSourcetableDecref i) live ∧
      ∀ j, ((m.fetcherSourcetableDecref i).fetchers j).loaded = (m.fetchers j).loaded := by
  obtain ⟨f, hset, haddress, hloaded, hrefcnt, hcount, hstack⟩ :=
    fetcherSourcetableDecref_cases m i
  have hall : ∀ j, ((m.fetcherSourcetableDecref i).fetchers j).address = (m.fetchers j).address ∧
      ((m.fetcherSourcetableDecref i).fetchers j).loaded = (m.fetchers j).loaded ∧
      ((m.fetcherSourcetableDecref i).fetchers j).refcnt ≤ (m.fetchers j).refcnt := by
    intro j
    rcases fetchers_cases hset j with ⟨rfl, hj⟩ | ⟨-, hj⟩
    · rw [hj]
      exact ⟨haddress, hloaded, by omega⟩
    · rw [hj]
      exact ⟨rfl, rfl, le_rfl⟩
  have hpos : 0 < (m.fetchers i).refcnt := by
    rw [h.refcnt i, List.count_cons_self]
    omega
  refine ⟨⟨?_, ?_, ?_, ?_⟩, ?_, fun j => (hall j).2.1⟩
  · intro j
    have hj := h.refcnt j
    rcases fetchers_cases hset j with ⟨rfl, hj'⟩ | ⟨hne, hj'⟩
    · rw [hj', hrefcnt, hj, List.count_cons_self]
      omega
    · rw [hj', hj, List.count_cons_of_ne]
      exact fun heq => hne (Option.some.inj heq).symm
  · intro j hle
    rw [hcount] at hle
    obtain ⟨hzero, hnone⟩ := h.bound j hle
    have hj := (hall j).2.2
    rw [hzero] at hj
    exact ⟨Nat.le_zero.mp hj, (hall j).2.1.trans hnone⟩
  · intro j table htable
    obtain ⟨hhost, hport⟩ := Prod.mk.inj (hall j).1
    rw [hhost, hport]
    exact h.origin j table ((hall j).2.1.symm.trans htable)
  · intro j hj htable k hne hk
    rw [(hall j).1, (hall k).1]
    rw [(hall j).2.1] at htable
    exact h.alone j hj htable k hne (lt_of_lt_of_le hk (hall k).2.2)
  · intro j hj table htable hmem
    rcases hstack with heq | ⟨hone, heq⟩
    · rw [heq]
      exact hmem
    · rw [heq]
      refine mem_replaceHost_none hmem fun hsame => ?_
      obtain ⟨hcaster, hport⟩ := h.origin j table htable
      have hne : i ≠ j := by
        rintro rfl
        have hlive := List.count_pos_iff.mpr hj
        have hcount' := h.refcnt i
        rw [hone, List.count_cons_self] at hcount'
        omega
      refine h.alone j hj (by rw [htable]; exact Option.some_ne_none table) i hne hpos ?_
      have hhost := Option.some.inj (hcaster.symm.trans hsame.1)
      exact Prod.ext hhost.symm (hsame.2.symm.trans hport)

theorem Lone.foldl_release {ids : List (Option ℕ)} (h : Lone m live (ids ++ held)) :
    Lone (ids.foldl release m) live held ∧ LeavesTables m (ids.foldl release m) live := by
  induction ids generalizing m with
  | nil => exact ⟨h, fun _ _ _ _ hmem => hmem⟩
  | cons o ids ih =>
    cases o with
    | none =>
      have hrest : Lone m live (ids ++ held) := by
        refine ⟨fun i => ?_, h.bound, h.origin, h.alone⟩
        rw [h.refcnt i, List.cons_append, List.count_cons_of_ne (Option.some_ne_none i).symm]
      exact ih hrest
    | some i =>
      obtain ⟨hlone, hleaves, hloaded⟩ := h.decref
      obtain ⟨hlone', hleaves'⟩ := ih hlone
      refine ⟨hlone', fun j hj table htable hmem => ?_⟩
      exact hleaves' j hj table ((hloaded j).trans htable) (hleaves j hj table htable hmem)

/-! ### The reload -/

/-- The fetchers made for the entries `done`, when the reload has started from `m₀`. -/
structure Midway (m₀ : FetchMem F) (olddyn held : List (Option ℕ)) (done : List ConfigProxy)
    (acc : FetchMem F × List (Option ℕ)) : Prop where
  refcnt : ∀ i, (acc.1.fetchers i).refcnt = acc.2.count (some i) + held.count (some i)
  count : m₀.count ≤ acc.1.count
  bound : ∀ i, acc.1.count ≤ i → (acc.1.fetchers i).refcnt = 0
  kept : ∀ i < m₀.count, (acc.1.fetchers i).address = (m₀.fetchers i).address ∧
    (acc.1.fetchers i).loaded = (m₀.fetchers i).loaded
  fresh : ∀ i, m₀.count ≤ i → (acc.1.fetchers i).loaded = none
  address : List.Forall₂ (fun proxy o => ∀ i ∈ o, i < acc.1.count ∧
    (acc.1.fetchers i).address = (proxy.host, proxy.port)) done acc.2
  recycled : ∀ i < m₀.count, some i ∈ acc.2 → some i ∈ olddyn

theorem recyclable_eq_some {olddyn : List (Option ℕ)} {proxy : ConfigProxy}
    (h : m.recyclable olddyn proxy = some i) :
    some i ∈ olddyn ∧ (m.fetchers i).address = (proxy.host, proxy.port) := by
  unfold recyclable at h
  split at h
  · obtain ⟨o, ho, hfilter⟩ := List.exists_of_findSome?_eq_some h
    obtain ⟨rfl, hsame⟩ := Option.filter_eq_some_iff.mp hfilter
    obtain ⟨hhost, hport, -⟩ := of_decide_eq_true hsame
    exact ⟨ho, Prod.ext hhost hport⟩
  · contradiction

variable {m₀ : FetchMem F} {olddyn : List (Option ℕ)} {done : List ConfigProxy}
  {acc : FetchMem F × List (Option ℕ)}

/-- An entry takes over a fetcher. -/
theorem Midway.recycle (h : Midway m₀ olddyn held done acc) {proxy : ConfigProxy}
    (hold : ∀ o ∈ olddyn, o ∈ held) (hr : acc.1.recyclable olddyn proxy = some i) :
    Midway m₀ olddyn held (done ++ [proxy])
      (acc.1.fetcherSourcetableIncref i, acc.2 ++ [some i]) := by
  obtain ⟨hmem, haddress⟩ := recyclable_eq_some hr
  have hset : (acc.1.fetcherSourcetableIncref i).fetchers = Function.update acc.1.fetchers i
      { acc.1.fetchers i with refcnt := (acc.1.fetchers i).refcnt + 1 } := rfl
  have hsame : ∀ j, ((acc.1.fetcherSourcetableIncref i).fetchers j).address =
      (acc.1.fetchers j).address ∧ ((acc.1.fetcherSourcetableIncref i).fetchers j).loaded =
        (acc.1.fetchers j).loaded := by
    intro j
    rcases fetchers_cases hset j with ⟨rfl, hj⟩ | ⟨-, hj⟩ <;> rw [hj] <;> exact ⟨rfl, rfl⟩
  have hpos : 0 < (acc.1.fetchers i).refcnt := by
    rw [h.refcnt i]
    exact Nat.add_pos_right _ (List.count_pos_iff.mpr (hold _ hmem))
  constructor
  · intro j
    rw [List.count_append, List.count_singleton]
    rcases fetchers_cases hset j with ⟨rfl, hj⟩ | ⟨hne, hj⟩
    · rw [hj, if_pos (beq_self_eq_true _)]
      dsimp only
      rw [h.refcnt j]
      omega
    · rw [hj, if_neg fun heq => hne (Option.some.inj (eq_of_beq heq)).symm, h.refcnt j]
      omega
  · exact h.count
  · intro j hle
    rcases fetchers_cases hset j with ⟨rfl, -⟩ | ⟨-, hj⟩
    · rw [h.bound j hle] at hpos
      contradiction
    · rw [hj]
      exact h.bound j hle
  · intro j hlt
    rw [(hsame j).1, (hsame j).2]
    exact h.kept j hlt
  · intro j hle
    rw [(hsame j).2]
    exact h.fresh j hle
  · refine List.rel_append (h.address.imp fun proxy o ho j hj => ?_) (.cons (fun j hj => ?_) .nil)
    · rw [(hsame j).1]
      exact ho j hj
    · obtain rfl := Option.some.inj hj
      refine ⟨?_, (hsame i).1.trans haddress⟩
      by_contra hle
      rw [h.bound i (Nat.le_of_not_lt hle)] at hpos
      contradiction
  · intro j hlt hj
    rcases List.mem_append.mp hj with hj | hj
    · exact h.recycled j hlt hj
    · obtain rfl := Option.some.inj (List.mem_singleton.mp hj)
      exact hmem

/-- An entry gets a fetcher of its own, or none. -/
theorem Midway.create (h : Midway m₀ olddyn held done acc) (proxy : ConfigProxy) (env : FetchEnv) :
    Midway m₀ olddyn held (done ++ [proxy])
      ((acc.1.fetcherSourcetableNew proxy env).1,
        acc.2 ++ [(acc.1.fetcherSourcetableNew proxy env).2]) := by
  unfold fetcherSourcetableNew
  split
  · -- the new fetcher has the next number, which nobody refers to yet
    have hzero := h.refcnt acc.1.count
    rw [h.bound acc.1.count le_rfl] at hzero
    have hcases : ∀ {f : Fetcher F} (j : ℕ), j = acc.1.count ∧
        Function.update acc.1.fetchers acc.1.count f j = f ∨ j ≠ acc.1.count ∧
          Function.update acc.1.fetchers acc.1.count f j = acc.1.fetchers j :=
      fun {f} j => @fetchers_cases F acc.1 (acc.1.set acc.1.count f) acc.1.count f rfl j
    constructor
    · intro j
      dsimp only [FetchMem.set]
      rw [List.count_append, List.count_singleton]
      rcases hcases j with ⟨rfl, hj⟩ | ⟨hne, hj⟩
      · rw [hj, if_pos (beq_self_eq_true _)]
        dsimp only
        omega
      · rw [hj, if_neg fun heq => hne (Option.some.inj (eq_of_beq heq)).symm, h.refcnt j]
        omega
    · exact h.count.trans (Nat.le_succ _)
    · intro j hle
      dsimp only [FetchMem.set]
      rcases hcases j with ⟨rfl, -⟩ | ⟨-, hj⟩
      · exact absurd hle (Nat.not_succ_le_self _)
      · rw [hj]
        exact h.bound j (Nat.le_of_succ_le hle)
    · intro j hlt
      dsimp only [FetchMem.set]
      rcases hcases j with ⟨rfl, -⟩ | ⟨-, hj⟩
      · exact absurd hlt (Nat.not_lt.mpr h.count)
      · rw [hj]
        exact h.kept j hlt
    · intro j hle
      dsimp only [FetchMem.set]
      rcases hcases j with ⟨rfl, hj⟩ | ⟨-, hj⟩
      · rw [hj]
      · rw [hj]
        exact h.fresh j hle
    · dsimp only [FetchMem.set]
      refine List.rel_append (h.address.imp fun q o ho j hj => ?_) (.cons (fun j hj => ?_) .nil)
      · obtain ⟨hlt, haddress⟩ := ho j hj
        rw [Function.update_of_ne hlt.ne]
        exact ⟨hlt.trans (Nat.lt_succ_self _), haddress⟩
      · obtain rfl := Option.some.inj hj
        rw [Function.update_self]
        exact ⟨Nat.lt_succ_self _, rfl⟩
    · intro j hlt hj
      rcases List.mem_append.mp hj with hj | hj
      · exact h.recycled j hlt hj
      · obtain rfl := Option.some.inj (List.mem_singleton.mp hj)
        exact absurd hlt (Nat.not_lt.mpr h.count)
  · constructor
    · intro j
      rw [List.count_append, List.count_singleton, if_neg (by simp), h.refcnt j]
      rfl
    · exact h.count
    · exact h.bound
    · exact h.kept
    · exact h.fresh
    · exact List.rel_append h.address (.cons (fun j hj => by contradiction) .nil)
    · intro j hlt hj
      rcases List.mem_append.mp hj with hj | hj
      · exact h.recycled j hlt hj
      · rw [List.mem_singleton] at hj
        contradiction

theorem Midway.foldl {entries : List (ConfigProxy × FetchEnv)}
    (h : Midway m₀ olddyn held done acc) (hold : ∀ o ∈ olddyn, o ∈ held) :
    Midway m₀ olddyn held (done ++ entries.map Prod.fst)
      (entries.foldl (reloadFetcher olddyn) acc) := by
  induction entries generalizing done acc with
  | nil =>
    rw [List.map_nil, List.append_nil]
    exact h
  | cons e entries ih =>
    rw [List.map_cons, ← List.singleton_append, ← List.append_assoc, List.foldl_cons]
    refine ih ?_
    unfold reloadFetcher
    split
    · next i hr => exact h.recycle hold hr
    · exact h.create e.1 e.2

/-- Two fetchers of a configuration with one entry for each caster do not ask the same caster. -/
theorem Midway.address_ne (h : Midway m₀ olddyn held done acc)
    (hnodup : (done.map fun proxy => (proxy.host, proxy.port)).Nodup) {j : ℕ} (hi : some i ∈ acc.2)
    (hj : some j ∈ acc.2) (hne : j ≠ i) :
    (acc.1.fetchers j).address ≠ (acc.1.fetchers i).address := by
  obtain ⟨a, ha, hai⟩ := List.mem_iff_getElem.mp hi
  obtain ⟨b, hb, hbj⟩ := List.mem_iff_getElem.mp hj
  obtain ⟨hlen, hget⟩ := List.forall₂_iff_get.mp h.address
  have hgeta := (hget a (hlen ▸ ha) ha i hai).2
  have hgetb := (hget b (hlen ▸ hb) hb j hbj).2
  intro heq
  rw [hgeta, hgetb] at heq
  have hlt : ∀ k < acc.2.length,
      k < (done.map fun proxy => (proxy.host, proxy.port)).length := by
    intro k hk
    rw [List.length_map, hlen]
    exact hk
  have hinj := List.nodup_iff_injective_get.mp hnodup
  have hab : b = a := by
    refine congrArg Fin.val (@hinj ⟨b, hlt b hb⟩ ⟨a, hlt a ha⟩ ?_)
    rw [List.get_eq_getElem, List.get_eq_getElem, List.getElem_map, List.getElem_map]
    exact heq
  subst hab
  exact hne (Option.some.inj (hbj.symm.trans hai))

theorem startFetcher_same (m : FetchMem F) (entry : ConfigProxy × Option ℕ) :
    SameFetchers m (m.startFetcher entry) := by
  unfold startFetcher
  split
  · next i _ =>
    refine ⟨rfl, fun j => ?_⟩
    dsimp only [FetchMem.set]
    by_cases hne : j = i
    · subst hne
      rw [Function.update_self]
      exact ⟨rfl, rfl, rfl⟩
    · rw [Function.update_of_ne hne]
      exact ⟨rfl, rfl, rfl⟩
  · exact ⟨rfl, fun _ => ⟨rfl, rfl, rfl⟩⟩

theorem foldl_startFetcher_same (entries : List (ConfigProxy × Option ℕ)) (m : FetchMem F) :
    SameFetchers m (entries.foldl startFetcher m) := by
  induction entries generalizing m with
  | nil => exact ⟨rfl, fun _ => ⟨rfl, rfl, rfl⟩⟩
  | cons e entries ih =>
    obtain ⟨hcount, hsame⟩ := startFetcher_same m e
    obtain ⟨hcount', hsame'⟩ := ih (m.startFetcher e)
    refine ⟨hcount'.trans hcount, fun i => ?_⟩
    obtain ⟨haddress, hloaded, hrefcnt⟩ := hsame i
    obtain ⟨haddress', hloaded', hrefcnt'⟩ := hsame' i
    exact ⟨haddress'.trans haddress, hloaded'.trans hloaded, hrefcnt'.trans hrefcnt⟩

/-- **After the loop**: a fetcher that was taken over and has loaded a table was alone before, and
the new ones are for other casters. -/
theorem Midway.lone {old : List (Option ℕ)} (h₀ : Lone m₀ live old)
    (h : Midway m₀ live (live ++ old) done acc)
    (hnodup : (done.map fun proxy => (proxy.host, proxy.port)).Nodup) :
    Lone acc.1 acc.2 (live ++ old) := by
  have hheld : ∀ i, (live ++ old).count (some i) = (m₀.fetchers i).refcnt := by
    intro i
    rw [h₀.refcnt i, List.count_append]
  refine ⟨h.refcnt, fun i hle => ⟨h.bound i hle, h.fresh i (h.count.trans hle)⟩, ?_, ?_⟩
  · intro i table hloaded
    by_cases hlt : i < m₀.count
    · obtain ⟨haddress, hsame⟩ := h.kept i hlt
      obtain ⟨hhost, hport⟩ := Prod.mk.inj haddress
      rw [hhost, hport]
      exact h₀.origin i table (hsame.symm.trans hloaded)
    · rw [h.fresh i (Nat.le_of_not_lt hlt)] at hloaded
      contradiction
  · intro i hi hloaded j hne hpos
    have hlt : i < m₀.count := by
      by_contra hle
      exact hloaded (h.fresh i (Nat.le_of_not_lt hle))
    obtain ⟨haddress, hsame⟩ := h.kept i hlt
    by_cases hj : some j ∈ acc.2
    · exact h.address_ne hnodup hi hj hne
    · have hpos' : 0 < (m₀.fetchers j).refcnt := by
        rw [h.refcnt j, List.count_eq_zero_of_not_mem hj, hheld j] at hpos
        omega
      rw [haddress, (h.kept j (h₀.lt_count hpos')).1]
      exact h₀.alone i (h.recycled i hlt hi) (hsame ▸ hloaded) j hne hpos'

end FetchMem

/-! ### Runs -/

namespace Fetching

open FetchMem

variable {F : Type} {scanFloat : CString → Option F} {text : Json → CString}
  {isoDate : CString → Option Timeval} {this that : Fetching F}

/-- The invariant between steps. -/
def Tidy (this : Fetching F) : Prop := Lone this.mem this.live this.old.flatten

theorem tidy_new : (new : Fetching F).Tidy := by
  constructor <;> simp [new]

theorem Tidy.reload (h : this.Tidy) (localTable : Option (Sourcetable F))
    {entries : List (ConfigProxy × FetchEnv)}
    (hnodup : (entries.map fun e => (e.1.host, e.1.port)).Nodup) :
    (this.casterReloadFetchers localTable entries).Tidy := by
  have hstart : ∀ {m : FetchMem F}, Lone m this.live this.old.flatten →
      Midway m this.live (this.live ++ this.old.flatten) [] (m, []) := by
    intro m hm
    refine ⟨fun i => ?_, le_rfl, fun i hle => (hm.bound i hle).1, fun _ _ => ⟨rfl, rfl⟩,
      fun i hle => (hm.bound i hle).2, .nil, fun i _ hi => by contradiction⟩
    rw [hm.refcnt i, List.count_nil, List.count_append, Nat.zero_add]
  have hnodup' : (([] ++ entries.map Prod.fst).map fun proxy : ConfigProxy =>
      (proxy.host, proxy.port)).Nodup := by
    rw [List.nil_append, List.map_map]
    exact hnodup
  have hend : ∀ {m : FetchMem F}, Lone m this.live this.old.flatten →
      Lone (entries.foldl (reloadFetcher this.live) (m, [])).1
        (entries.foldl (reloadFetcher this.live) (m, [])).2
        (this.live ++ this.old.flatten) := by
    intro m hm
    exact ((hstart hm).foldl fun o ho => List.mem_append_left _ ho).lone hm hnodup'
  unfold casterReloadFetchers Tidy
  refine Lone.congr ?_ (foldl_startFetcher_same _ _)
  split
  · exact hend ⟨h.refcnt, h.bound, h.origin, h.alone⟩
  · exact hend h

theorem Tidy.fetched (h : this.Tidy) {i : ℕ} {lines : List CString} {now : Timeval}
    (halone : this.Alone (.fetched i lines now))
    (hr : this.sourcetableLineCb scanFloat i lines now = some that) : that.Tidy := by
  simp only [sourcetableLineCb] at hr
  split at hr
  · next hrun =>
    split at hr
    · next table htable =>
      obtain rfl := Option.some.inj hr
      obtain ⟨-, hcaster, hport, -⟩ := Sourcetable.fetch_spec htable
      have hcases := fun j => @fetchers_cases F this.mem
        (this.mem.set i { this.mem.fetchers i with loaded := some table }) i _ rfl j
      have hsame : ∀ j, ((this.mem.set i { this.mem.fetchers i with
          loaded := some table }).fetchers j).address = (this.mem.fetchers j).address ∧
          ((this.mem.set i { this.mem.fetchers i with
            loaded := some table }).fetchers j).refcnt = (this.mem.fetchers j).refcnt := by
        intro j
        rcases hcases j with ⟨rfl, hj⟩ | ⟨-, hj⟩ <;> rw [hj] <;> exact ⟨rfl, rfl⟩
      refine ⟨fun j => (hsame j).2.trans (h.refcnt j), fun j hle => ?_, fun j table' htable' => ?_,
        fun j hj hloaded k hne hk => ?_⟩
      · rcases hcases j with ⟨rfl, -⟩ | ⟨-, hj⟩
        · exact absurd (h.lt_count hrun.2) (Nat.not_lt.mpr hle)
        · rw [hj]
          exact h.bound j hle
      · rcases hcases j with ⟨rfl, hj⟩ | ⟨-, hj⟩
        · rw [hj] at htable' ⊢
          obtain rfl := Option.some.inj htable'
          exact ⟨hcaster, hport⟩
        · rw [hj] at htable' ⊢
          exact h.origin j table' htable'
      · rw [(hsame j).1, (hsame k).1]
        rw [(hsame k).2] at hk
        rcases hcases j with ⟨rfl, -⟩ | ⟨-, hj'⟩
        · exact halone k (h.lt_count hk) hne hk
        · rw [hj'] at hloaded
          exact h.alone j hj hloaded k hne hk
    · obtain rfl := Option.some.inj hr
      exact h
  · contradiction

theorem Tidy.release (h : this.Tidy) {k : ℕ} (hr : this.dynconfigFreeFetchers k = some that) :
    that.Tidy ∧ this.Leaves that := by
  unfold dynconfigFreeFetchers at hr
  split at hr
  · next ids hids =>
    obtain rfl := Option.some.inj hr
    obtain ⟨hk, rfl⟩ := List.getElem?_eq_some_iff.mp hids
    have hperm : this.old.flatten.Perm (this.old[k] ++ (this.old.eraseIdx k).flatten) := by
      rw [← List.flatten_cons]
      exact (List.getElem_cons_eraseIdx_perm hk).symm.flatten
    have hlone : Lone this.mem this.live (this.old[k] ++ (this.old.eraseIdx k).flatten) :=
      ⟨fun i => by rw [h.refcnt i, hperm.count_eq], h.bound, h.origin, h.alone⟩
    exact hlone.foldl_release
  · contradiction

theorem Tidy.step (h : this.Tidy) {l : FetchStep F} (halone : this.Alone l)
    (hstep : this.step scanFloat text isoDate l = some that) : that.Tidy := by
  cases l with
  | reload localTable entries =>
    obtain rfl := Option.some.inj hstep
    exact h.reload localTable halone
  | fetched i lines now => exact h.fetched halone hstep
  | sync j =>
    obtain ⟨r, -, rfl⟩ := Option.map_eq_some_iff.mp hstep
    exact ⟨h.refcnt, h.bound, h.origin, h.alone⟩
  | release k => exact (h.release hstep).1

/-- **To free an old configuration leaves the tables of the live one in the stack**, in every run
in which a table is loaded only by the one fetcher that the configurations have for its caster. -/
theorem reachable_leaves
    (h : Transition.Reachable Initial Alone (step scanFloat text isoDate) this) {k : ℕ}
    (hstep : this.step scanFloat text isoDate (.release k) = some that) : this.Leaves that := by
  have htidy : this.Tidy := by
    refine h.invariant ?_ fun s l s' hs halone hstep => hs.step halone hstep
    rintro s rfl
    exact tidy_new
  exact (htidy.release hstep).2

/-- A table that a fetcher has just loaded for the first time is in the stack. -/
theorem mem_stack_of_fetched {i : ℕ} {lines : List CString} {now : Timeval}
    (hr : this.sourcetableLineCb scanFloat i lines now = some that)
    (hfirst : (this.mem.fetchers i).loaded = none) {table : Sourcetable F}
    (htable : (that.mem.fetchers i).loaded = some table) : table ∈ that.mem.stack := by
  simp only [sourcetableLineCb] at hr
  split at hr
  · split at hr
    · next table' _ =>
      obtain rfl := Option.some.inj hr
      dsimp only [FetchMem.set] at htable
      rw [Function.update_self] at htable
      obtain rfl := Option.some.inj htable
      change table' ∈ Stack.replace _ _ _ _ false false
      unfold Stack.replace
      split
      · contradiction
      · next heq =>
        obtain rfl := Option.some.inj heq
        exact (List.mem_orderedInsert _).mpr (.inl rfl)
      · contradiction
      · next heq =>
        obtain rfl := Option.some.inj heq
        rw [Bool.not_false, Bool.true_or, if_pos rfl]
        exact (List.mem_orderedInsert _).mpr (.inl rfl)
    · obtain rfl := Option.some.inj hr
      rw [hfirst] at htable
      contradiction
  · contradiction

instance (this : Fetching F) (l : FetchStep F) : Decidable (this.Alone l) :=
  match l with
  | .reload _ entries =>
    inferInstanceAs (Decidable (entries.map fun e => (e.1.host, e.1.port)).Nodup)
  | .fetched i _ _ => inferInstanceAs (Decidable (∀ j < this.mem.count, j ≠ i →
      0 < (this.mem.fetchers j).refcnt →
        (this.mem.fetchers j).address ≠ (this.mem.fetchers i).address))
  | .sync _ | .release _ => inferInstanceAs (Decidable True)

/-- An entry for one caster, when nothing fails. -/
def farProxy (filterFilename : Option CString) : ConfigProxy × FetchEnv :=
  (⟨cstr "far.example", 2101, false, 600, 20, filterFilename⟩, ⟨true, true⟩)

/-- The fetcher is taken over, and the old configuration freed. -/
theorem reachable_leaves_recycled :
    ∃ this that : Fetching ℤ, this.dynconfigFreeFetchers 0 = some that ∧
      this.mem.stack.length = 1 ∧ that.mem.stack.length = 1 ∧ this.Leaves that := by
  have hobserve : (([.reload none [farProxy none], .fetched 0 [Stack.baseLine "100"] ⟨0, 0⟩,
      .reload none [farProxy none]] : List (FetchStep ℤ)).foldlM
      (fun (s : Fetching ℤ) l =>
        if s.Alone l then s.step strtoll (fun _ => []) (fun _ => none) l else none) new).map
      (fun s => (s.mem.stack.length,
        (s.dynconfigFreeFetchers 0).map fun s' => s'.mem.stack.length)) = some (1, some 1) := by
    decide +kernel
  obtain ⟨this, hrun, hthis⟩ := Option.map_eq_some_iff.mp hobserve
  have hreach : Transition.Reachable Initial Alone
      (step strtoll (fun _ => []) (fun _ => none)) this :=
    Transition.reachable_of_foldlM (.refl rfl) hrun
  obtain ⟨hlen, hnext⟩ := Prod.mk.inj hthis
  obtain ⟨that, hstep, hlen'⟩ := Option.map_eq_some_iff.mp hnext
  exact ⟨this, that, hstep, hlen, hlen', reachable_leaves hreach hstep⟩

/-- The entry gets a filter, and so a new fetcher. When the old configuration is freed, the table
that the new fetcher has loaded is gone. -/
theorem not_leaves_filtered :
    ¬ ∀ this that : Fetching ℤ, ∀ k : ℕ, Transition.Reachable Initial (fun _ _ => True)
      (step strtoll (fun _ => []) (fun _ => none)) this →
        this.dynconfigFreeFetchers k = some that → this.Leaves that := by
  intro hall
  have hobserve : (([.reload none [farProxy none], .fetched 0 [Stack.baseLine "100"] ⟨0, 0⟩,
      .reload none [farProxy (some (cstr "filter.json"))]] : List (FetchStep ℤ)).foldlM
      (fun (s : Fetching ℤ) l =>
        if True then s.step strtoll (fun _ => []) (fun _ => none) l else none) new).map
      (fun s => ((s.mem.fetchers 1).loaded.isSome,
        (s.sourcetableLineCb strtoll 1 [Stack.baseLine "5"] ⟨60, 0⟩).map fun s' =>
          (decide (some 1 ∈ s'.live), (s'.mem.fetchers 1).loaded.isSome,
            (s'.dynconfigFreeFetchers 0).map fun s'' => s''.mem.stack.length))) =
      some (false, some (true, true, some 0)) := by
    decide +kernel
  obtain ⟨before, hrun, hbefore⟩ := Option.map_eq_some_iff.mp hobserve
  have hreach : Transition.Reachable Initial (fun _ _ => True)
      (step strtoll (fun _ => []) (fun _ => none)) before :=
    Transition.reachable_of_foldlM (.refl rfl) hrun
  obtain ⟨hfirst, hnext⟩ := Prod.mk.inj hbefore
  obtain ⟨this, hfetched, hthis⟩ := Option.map_eq_some_iff.mp hnext
  obtain ⟨hlive, hrest⟩ := Prod.mk.inj hthis
  obtain ⟨hloaded, hnext⟩ := Prod.mk.inj hrest
  obtain ⟨that, hstep, hlen⟩ := Option.map_eq_some_iff.mp hnext
  obtain ⟨table, htable⟩ := Option.isSome_iff_exists.mp hloaded
  have hmem := mem_stack_of_fetched hfetched
    (Option.not_isSome_iff_eq_none.mp (Bool.eq_false_iff.mp hfirst)) htable
  have hreach' : Transition.Reachable Initial (fun _ _ => True)
      (step strtoll (fun _ => []) (fun _ => none)) this :=
    hreach.step (l := .fetched 1 [Stack.baseLine "5"] ⟨60, 0⟩) trivial hfetched
  have hkept := hall this that 0 hreach' hstep 1 (of_decide_eq_true hlive) table htable hmem
  rw [List.length_eq_zero_iff.mp hlen] at hkept
  exact List.not_mem_nil hkept

end Fetching

end ChilopodCaster
