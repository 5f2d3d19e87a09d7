import ChilopodCaster.Lib.Holdings
import ChilopodCaster.LivesourceOwner

/-!
# What becomes of a livesource

A livesource is held by the session that owns it, or by the job that will start this session or will
take the livesource out of the table. Each step hands what is held from one to the other. It is
held once, and as long as it is held it is in the table; whether everything in the table is held
depends on how allocations and connections go.

## Main definitions

* `SourceSystem.held` — the livesources that sessions own, or that jobs carry
* `SourceSystem.Effect` — what a step can do to them
* `SourceSystem.Sound` — the invariant

## Main results

* `SourceSystem.step_effect` — what a step does
* `SourceSystem.reachable_sound` — the invariant of every state reached
-/

namespace ChilopodCaster

open Holdings

/-! ### What is held -/

/-- The livesource a job carries. -/
def SourceJob.livesource : SourceJob → Option ℕ
  | .redistributeSourceStream redisArgs => redisArgs.map RedistributeArgs.livesource
  | .livesourceDelDummy _ livesource => some livesource

theorem OnDemandFailure.count_jobs_le (failure : OnDemandFailure) (redisArgs : RedistributeArgs)
    (id : ℕ) : ((failure.jobs redisArgs).filterMap SourceJob.livesource).count id ≤
      [redisArgs.livesource].count id := by
  cases failure with
  | none => rfl
  | livesource => rfl
  | redisArgs => exact Nat.zero_le _
  | job => exact Nat.zero_le _

/-- A livesource is in the table, under its name. -/
def Livesources.Registered (this : Livesources) (id : ℕ) : Prop :=
  ∃ l, this.heap[id]? = some l ∧ this.hash.get l.mountpoint = some id

/-- The table has the same livesources under the same names, and none has become unusable. -/
def Livesources.Keeps (this that : Livesources) : Prop :=
  that.hash = this.hash ∧ ∀ (id : ℕ) (l : Livesource), this.heap[id]? = some l →
    ∃ l', that.heap[id]? = some l' ∧ l'.mountpoint = l.mountpoint ∧
      (l.state ≠ .init → l'.state ≠ .init)

namespace Livesources

variable {this that : Livesources}

theorem Keeps.refl (this : Livesources) : this.Keeps this :=
  ⟨rfl, fun _ l hl => ⟨l, hl, rfl, fun h => h⟩⟩

theorem Keeps.length_le (h : this.Keeps that) : this.heap.length ≤ that.heap.length := by
  by_contra hlt
  obtain ⟨l', hl', -⟩ := h.2 that.heap.length _ (List.getElem?_eq_getElem (by omega))
  have := (List.getElem?_eq_some_iff.mp hl').1
  omega

theorem Keeps.registered (h : this.Keeps that) {id : ℕ} (hid : this.Registered id) :
    that.Registered id := by
  obtain ⟨l, hl, hget⟩ := hid
  obtain ⟨l', hl', hname, -⟩ := h.2 id l hl
  exact ⟨l', hl', by rw [h.1, hname, hget]⟩

theorem keeps_setState {id : ℕ} {state : LivesourceState} {q : List Json} (hstate : state ≠ .init)
    (h : this.setState id state = some (that, q)) : this.Keeps that := by
  obtain ⟨l, hl, h⟩ := Option.bind_eq_some_iff.mp h
  split at h
  · obtain ⟨rfl, -⟩ := Prod.mk.inj (Option.some.inj h)
    refine ⟨rfl, fun id' l' hl' => ?_⟩
    dsimp only
    rw [List.getElem?_set]
    split
    · next heq =>
      obtain rfl := heq
      rw [hl, Option.some.injEq] at hl'
      obtain rfl := hl'
      rw [if_pos (List.getElem?_eq_some_iff.mp hl).1]
      exact ⟨_, rfl, rfl, fun _ => hstate⟩
    · exact ⟨l', hl', rfl, fun h => h⟩
  · obtain ⟨rfl, -⟩ := Prod.mk.inj (Option.some.inj h)
    exact .refl _

theorem keeps_updateExecute {text : Json → CString} {j : Json} {status : ℕ}
    (h : this.updateExecute text j = some (status, that)) : this.Keeps that := by
  have hlocal : that.hash = this.hash ∧ that.heap = this.heap := by
    rcases updateExecute_cases h with rfl | ⟨hostname, -, ⟨-, lrlist, -, rfl⟩ | ⟨-, hdiff⟩⟩
    · exact ⟨rfl, rfl⟩
    · exact ⟨rfl, rfl⟩
    · rcases updateExecuteDiff_cases hdiff with rfl | ⟨lrlist, lrlist', -, -, -, rfl⟩
      · exact ⟨rfl, rfl⟩
      · exact ⟨rfl, rfl⟩
  rw [Keeps, hlocal.1, hlocal.2]
  exact Keeps.refl this

end Livesources

namespace SourceSystem

variable {F : Type}

/-- The livesources that sessions own, or that jobs and timers carry. -/
def held (this : SourceSystem F) : List ℕ :=
  this.sessions.filterMap SourceSession.ownLivesource ++
    (this.jobs.filterMap SourceJob.livesource ++ this.timers.map RedistributeArgs.livesource)

theorem count_held (this : SourceSystem F) (id : ℕ) :
    this.held.count id = (this.sessions.filterMap SourceSession.ownLivesource).count id +
      ((this.jobs.filterMap SourceJob.livesource).count id +
        (this.timers.map RedistributeArgs.livesource).count id) := by
  rw [held, List.count_append, List.count_append]

/-- What a step can do to the livesources: each one is held as often as before, or less often; or
one is made, and held once at most; or one that was held is taken out of the table. Under a
condition, none is let go. -/
inductive Effect (this that : SourceSystem F) (condition : Prop) : Prop
  | keep (hkeeps : this.livesources.Keeps that.livesources) (hdeleted : that.deleted = this.deleted)
      (hle : ∀ id, that.held.count id ≤ this.held.count id)
      (hge : condition → ∀ id, this.held.count id ≤ that.held.count id)
  | create (np : Livesource) (livesources : Livesources) (hstate : np.state ≠ .init)
      (hregister : this.livesources.register np = some livesources)
      (hhash : that.livesources.hash = livesources.hash)
      (hheap : that.livesources.heap = livesources.heap)
      (hdeleted : that.deleted = this.deleted)
      (hle : ∀ id, that.held.count id ≤
        [this.livesources.heap.length].count id + this.held.count id)
      (hge : condition → ∀ id, [this.livesources.heap.length].count id + this.held.count id ≤
        that.held.count id)
  | delete (livesource : ℕ) (q : List Json)
      (hdel : this.livesources.del livesource = some (that.livesources, q))
      (hdeleted : that.deleted = this.deleted ++ [livesource])
      (heq : ∀ id, this.held.count id = [livesource].count id + that.held.count id)

end SourceSystem

/-! ### The invariant -/

/-- What holds of a session. -/
structure SourceSession.Sound (this : SourceSession) : Prop where
  streaming : this.client = false → this.ownLivesource.isSome → this.state = .waitStreamSource
  oneShot : ∀ redisArgs, this.task = some redisArgs → redisArgs.persistent = false
  ended : this.state = .ntripEnd → this.ownLivesource = none

namespace SourceSystem

/-- What holds of the livesources: those in the table can be used; those that are held are in the
table, and are held once; none is deleted twice, or held once it is deleted. -/
structure SoundLivesources (this : SourceSystem F) : Prop where
  filed : ∀ m id, this.livesources.hash.get m = some id →
    ∃ l, this.livesources.heap[id]? = some l ∧ l.mountpoint = m ∧ l.state ≠ .init
  registered : ∀ id ∈ this.held, this.livesources.Registered id
  once : ∀ id, this.held.count id + this.deleted.count id ≤ 1
  known : ∀ id ∈ this.deleted, id < this.livesources.heap.length

/-- What holds of the sessions and jobs: no fetch is persistent. -/
structure SoundSessions (this : SourceSystem F) : Prop where
  session : ∀ s ∈ this.sessions, s.Sound
  job : ∀ redisArgs, .redistributeSourceStream (some redisArgs) ∈ this.jobs →
    redisArgs.persistent = false
  timers : this.timers = []

variable {F : Type} {this that : SourceSystem F} {condition : Prop} {st : ℕ}

theorem soundLivesources_new (hostname startDate : CString) (stack : Stack F) :
    (new hostname startDate stack).SoundLivesources where
  filed m id hget := by
    rw [new, Livesources.new, HashTable.get_new] at hget
    contradiction
  registered id hid := by simp [held, new] at hid
  once id := by simp [held, new]
  known id hid := by simp [new] at hid

theorem soundSessions_new (hostname startDate : CString) (stack : Stack F) :
    (new hostname startDate stack).SoundSessions where
  session s hs := by simp [new] at hs
  job redisArgs hjob := by simp [new] at hjob
  timers := rfl

theorem SoundLivesources.lt_of_mem_held (h : this.SoundLivesources) {id : ℕ}
    (hid : id ∈ this.held) : id < this.livesources.heap.length := by
  obtain ⟨l, hl, -⟩ := h.registered id hid
  exact (List.getElem?_eq_some_iff.mp hl).1

theorem mem_held_of_le (hle : ∀ id, that.held.count id ≤ this.held.count id) {id : ℕ}
    (hid : id ∈ that.held) : id ∈ this.held := by
  have hpos := List.count_pos_iff.mpr hid
  exact List.count_pos_iff.mp (hpos.trans_le (hle id))

/-- The table after a livesource has been made. -/
theorem SoundLivesources.create (h : this.SoundLivesources) {np : Livesource}
    {livesources : Livesources} (hstate : np.state ≠ .init)
    (hregister : this.livesources.register np = some livesources)
    (hhash : that.livesources.hash = livesources.hash)
    (hheap : that.livesources.heap = livesources.heap) (hdeleted : that.deleted = this.deleted)
    (hle : ∀ id, that.held.count id ≤
      [this.livesources.heap.length].count id + this.held.count id) : that.SoundLivesources := by
  obtain ⟨hash, hadd, rfl⟩ := Option.map_eq_some_iff.mp hregister
  dsimp only at hhash hheap
  have hget := HashTable.get_add hadd
  have hfree := HashTable.get_eq_none_of_add hadd
  have hnew : (this.livesources.heap ++ [np])[this.livesources.heap.length]? = some np := by simp
  have hold {id : ℕ} {l : Livesource} (hl : this.livesources.heap[id]? = some l) :
      (this.livesources.heap ++ [np])[id]? = some l := by
    rw [List.getElem?_append_left (List.getElem?_eq_some_iff.mp hl).1, hl]
  constructor
  · intro m id hm
    rw [hhash, hget] at hm
    rw [hheap]
    split at hm
    · next heq =>
      obtain rfl := Option.some.inj hm
      exact ⟨np, hnew, heq.symm, hstate⟩
    · obtain ⟨l, hl, hname⟩ := h.filed m id hm
      exact ⟨l, hold hl, hname⟩
  · intro id hid
    by_cases hid' : id = this.livesources.heap.length
    · refine ⟨np, by rw [hheap, hid', hnew], ?_⟩
      rw [hhash, hget, if_pos rfl, hid']
    · have hpos := List.count_pos_iff.mpr hid
      have hmem : id ∈ this.held := by
        refine List.count_pos_iff.mp (hpos.trans_le ((hle id).trans_eq ?_))
        rw [List.count_singleton, if_neg (by simpa using Ne.symm hid'), Nat.zero_add]
      obtain ⟨l, hl, hreg⟩ := h.registered id hmem
      refine ⟨l, by rw [hheap, hold hl], ?_⟩
      rw [hhash, hget, if_neg, hreg]
      intro heq
      rw [heq, hfree] at hreg
      contradiction
  · intro id
    rw [hdeleted]
    have hcount := hle id
    have honce := h.once id
    rw [List.count_singleton] at hcount
    split at hcount
    · next heq =>
      obtain rfl := beq_iff_eq.mp heq
      have hheld := List.count_eq_zero.mpr fun hmem => absurd (h.lt_of_mem_held hmem) (lt_irrefl _)
      have hdel := List.count_eq_zero.mpr fun hmem => absurd (h.known _ hmem) (lt_irrefl _)
      omega
    · omega
  · intro id hid
    rw [hdeleted] at hid
    rw [hheap, List.length_append]
    exact Nat.lt_add_right _ (h.known id hid)

/-- The table after a livesource has been deleted. -/
theorem SoundLivesources.delete (h : this.SoundLivesources) {livesource : ℕ} {q : List Json}
    (hdel : this.livesources.del livesource = some (that.livesources, q))
    (hdeleted : that.deleted = this.deleted ++ [livesource])
    (heq : ∀ id, this.held.count id = [livesource].count id + that.held.count id) :
    that.SoundLivesources := by
  obtain ⟨l, hl, hdel⟩ := Option.bind_eq_some_iff.mp hdel
  obtain ⟨hash, hhash, hdel⟩ := Option.bind_eq_some_iff.mp hdel
  obtain ⟨hlivesources, -⟩ := Prod.mk.inj (Option.some.inj hdel)
  have hmem : livesource ∈ this.held := by
    refine List.count_pos_iff.mp ?_
    rw [heq, List.count_singleton_self]
    omega
  have hreg : this.livesources.hash.get l.mountpoint = some livesource := by
    obtain ⟨l', hl', hget⟩ := h.registered livesource hmem
    rw [hl, Option.some.injEq] at hl'
    rwa [hl']
  have hget := HashTable.get_del hhash
  have hgone : livesource ∉ that.held := by
    refine List.count_eq_zero.mp ?_
    have hcount := heq livesource
    have honce := h.once livesource
    rw [List.count_singleton_self] at hcount
    omega
  have hother {id : ℕ} (hne : id ≠ livesource) :
      that.livesources.heap[id]? = this.livesources.heap[id]? := by
    rw [← hlivesources]
    exact List.getElem?_set_ne (Ne.symm hne)
  constructor
  · intro m id hm
    rw [← hlivesources] at hm
    dsimp only at hm
    rw [hget] at hm
    split at hm
    · contradiction
    · next hne =>
      obtain ⟨l', hl', rfl, hstate⟩ := h.filed m id hm
      refine ⟨l', ?_, rfl, hstate⟩
      rw [hother, hl']
      rintro rfl
      rw [hl, Option.some.injEq] at hl'
      exact hne (by rw [hl'])
  · intro id hid
    have hne : id ≠ livesource := fun heq => hgone (heq ▸ hid)
    have hmem' : id ∈ this.held := mem_held_of_le (fun id => by rw [heq]; omega) hid
    obtain ⟨l', hl', hget'⟩ := h.registered id hmem'
    refine ⟨l', by rw [hother hne, hl'], ?_⟩
    rw [← hlivesources]
    dsimp only
    rw [hget, if_neg, hget']
    intro heq
    rw [heq, hreg, Option.some.injEq] at hget'
    exact hne hget'.symm
  · intro id
    have hcount := heq id
    have honce := h.once id
    rw [hdeleted, List.count_append]
    omega
  · intro id hid
    have hlen : that.livesources.heap.length = this.livesources.heap.length := by
      rw [← hlivesources]
      exact List.length_set
    rw [hdeleted, List.mem_append, List.mem_singleton] at hid
    rw [hlen]
    rcases hid with hid | rfl
    · exact h.known id hid
    · exact h.lt_of_mem_held hmem

theorem SoundLivesources.effect (h : this.SoundLivesources) (heffect : Effect this that condition) :
    that.SoundLivesources := by
  cases heffect with
  | keep hkeeps hdeleted hle hge =>
    constructor
    · intro m id hget
      rw [hkeeps.1] at hget
      obtain ⟨l, hl, hname, hstate⟩ := h.filed m id hget
      obtain ⟨l', hl', hname', hstate'⟩ := hkeeps.2 id l hl
      exact ⟨l', hl', hname'.trans hname, hstate' hstate⟩
    · intro id hid
      exact hkeeps.registered (h.registered id (mem_held_of_le hle hid))
    · intro id
      rw [hdeleted]
      exact (Nat.add_le_add_right (hle id) _).trans (h.once id)
    · intro id hid
      rw [hdeleted] at hid
      exact (h.known id hid).trans_le hkeeps.length_le
  | create np livesources hstate hregister hhash hheap hdeleted hle hge =>
    exact h.create hstate hregister hhash hheap hdeleted hle
  | delete livesource q hdel hdeleted heq => exact h.delete hdel hdeleted heq

end SourceSystem

/-! ### What each step does -/

namespace Livesources

variable {this : Livesources} {mountpoint : CString}

theorem connected_eq_one {r : ℤ × Livesources × List Json}
    (h : this.connected mountpoint = some r) (hr : r.1 = 1) :
    ∃ livesources, this.register (.new mountpoint .direct .running) = some livesources ∧
      r.2.1.hash = livesources.hash ∧ r.2.1.heap = livesources.heap := by
  obtain ⟨r₀, hfind, h⟩ := Option.bind_eq_some_iff.mp h
  have hsame : r₀.2.1 = this := by
    rw [findUnlocked, if_neg (fun hcreate => Bool.false_ne_true hcreate.2.2.1)] at hfind
    obtain rfl := Option.some.inj hfind
    rfl
  rw [hsame] at h
  split at h
  · obtain rfl := Option.some.inj h
    exact absurd hr zero_ne_one
  · obtain ⟨livesources, hregister, h⟩ := Option.bind_eq_some_iff.mp h
    obtain rfl := Option.some.inj h
    exact ⟨livesources, hregister, rfl, rfl⟩

theorem findOnDemand_of_creates {st onDemand sourcelineOnDemand : Bool}
    {r : Option ℕ × Livesources × List Json}
    (hcreates : this.CreatesOnDemand st mountpoint onDemand onDemand sourcelineOnDemand)
    (h : this.findOnDemand st mountpoint onDemand sourcelineOnDemand = some r) :
    ∃ livesources, this.register (.new mountpoint .fetched .fetchPending) = some livesources ∧
      r.2.1.hash = livesources.hash ∧ r.2.1.heap = livesources.heap := by
  rw [findOnDemand, findUnlocked, if_pos hcreates] at h
  obtain ⟨r₀, hfind, rfl⟩ := Option.map_eq_some_iff.mp h
  obtain ⟨livesources, hregister, rfl⟩ := Option.map_eq_some_iff.mp hfind
  exact ⟨livesources, hregister, rfl, rfl⟩

end Livesources

namespace SourceSystem

variable {F : Type} {this that : SourceSystem F} {condition : Prop} {st : ℕ} {memory : Bool}

theorem Effect.of_held_eq (hlivesources : this.livesources.Keeps that.livesources)
    (hdeleted : that.deleted = this.deleted) (hheld : that.held = this.held) :
    Effect this that condition :=
  .keep hlivesources hdeleted (fun id => by rw [hheld]) fun _ id => by rw [hheld]

theorem Effect.mono {condition' : Prop} (h : Effect this that condition)
    (himp : condition' → condition) : Effect this that condition' := by
  cases h with
  | keep hkeeps hdeleted hle hge => exact .keep hkeeps hdeleted hle fun h => hge (himp h)
  | create np livesources hstate hregister hhash hheap hdeleted hle hge =>
    exact .create np livesources hstate hregister hhash hheap hdeleted hle fun h => hge (himp h)
  | delete livesource q hdel hdeleted heq => exact .delete livesource q hdel hdeleted heq

/-- A session may change before the rest, as long as what it owns does not. -/
theorem Effect.of_modify (st : ℕ) (f : SourceSession → SourceSession)
    (hf : ∀ s, (f s).ownLivesource = s.ownLivesource)
    (h : Effect { this with sessions := this.sessions.modify st f } that condition) :
    Effect this that condition := by
  have hheld : held { this with sessions := this.sessions.modify st f } = this.held := by
    rw [held, held, filterMap_modify_of_eq hf]
  cases h with
  | keep hkeeps hdeleted hle hge =>
    rw [hheld] at hle hge
    exact .keep hkeeps hdeleted hle hge
  | create np livesources hstate hregister hhash hheap hdeleted hle hge =>
    rw [hheld] at hle hge
    exact .create np livesources hstate hregister hhash hheap hdeleted hle hge
  | delete livesource q hdel hdeleted heq =>
    rw [hheld] at heq
    exact .delete livesource q hdel hdeleted heq

/-- What a session owned is carried by the job, if there was memory for it. -/
theorem effect_unregister (this : SourceSystem F) (st : ℕ) (memory : Bool) :
    Effect this (this.ntripUnregisterLivesource st memory) (memory = true) := by
  rw [ntripUnregisterLivesource]
  split
  · exact .of_held_eq (.refl _) rfl rfl
  · next livesource hown =>
    obtain ⟨s, hs, hown⟩ := Option.bind_eq_some_iff.mp hown
    have hcount (id : ℕ) := count_filterMap SourceSession.ownLivesource hs id
    have hcount' (id : ℕ) := count_filterMap_modify SourceSession.ownLivesource
      (fun s => { s with ownLivesource := none }) hs id
    rw [hown] at hcount
    refine .keep (.refl _) rfl (fun id => ?_) fun hmemory id => ?_
    · rw [count_held, count_held, hcount, hcount', List.filterMap_append, List.count_append]
      cases memory with
      | false => simp
      | true =>
        simp [SourceJob.livesource]
        omega
    · rw [count_held, count_held, hcount, hcount', List.filterMap_append, List.count_append]
      simp [SourceJob.livesource, hmemory]
      omega

theorem effect_decrefEnd (this : SourceSystem F) (st : ℕ) (memory : Bool) :
    Effect this (this.ntripDecrefEnd st memory) (memory = true) := by
  rw [ntripDecrefEnd]
  split
  · exact .of_held_eq (.refl _) rfl rfl
  · exact .of_modify st (fun s => { s with state := .ntripEnd }) (fun _ => rfl)
      (effect_unregister _ st memory)

theorem effect_notifyClose (h : this.SoundSessions)
    (hstep : this.ntripNotifyClose st memory = some that) :
    Effect this that (memory = true) := by
  rw [ntripNotifyClose] at hstep
  split at hstep
  · contradiction
  · next s hs =>
    split at hstep
    · obtain rfl := Option.some.inj hstep
      exact .of_held_eq (.refl _) rfl rfl
    · split at hstep
      · obtain rfl := Option.some.inj hstep
        exact .of_held_eq (.refl _) rfl rfl
      · next redisArgs htask =>
        have honeShot := (h.session s (List.mem_of_getElem? hs)).oneShot redisArgs htask
        rw [redistributeEndCb] at hstep
        dsimp only at hstep
        rw [honeShot, if_neg Bool.false_ne_true] at hstep
        refine .of_modify st (fun s => { s with task := none }) (fun _ => rfl) ?_
        split at hstep
        · obtain rfl := Option.some.inj hstep
          exact effect_unregister _ st memory
        · obtain rfl := Option.some.inj hstep
          exact .of_held_eq (.refl _) rfl rfl

/-- The livesource that a job or a timer carried is owned by the new session, if there is one. -/
theorem effect_redistribute (this this' : SourceSystem F) {redisArgs : RedistributeArgs}
    (start : FetchStart) (hlivesources : this'.livesources = this.livesources)
    (hdeleted : this'.deleted = this.deleted)
    (hheld : ∀ id, this.held.count id =
      [redisArgs.livesource].count id + this'.held.count id) :
    Effect this (this'.redistributeSourceStream redisArgs start)
      (this'.HasHost redisArgs ∧ start = .started) := by
  have hkeeps : this.livesources.Keeps this'.livesources := by
    rw [hlivesources]
    exact .refl _
  rw [redistributeSourceStream]
  split
  · have hsame (id : ℕ) : (held { this' with sessions := this'.sessions ++
        [⟨true, .init, some redisArgs.livesource, some redisArgs⟩] }).count id =
        this.held.count id := by
      rw [hheld, count_held, count_held, List.filterMap_append, List.count_append]
      simp
      omega
    exact .keep hkeeps hdeleted (fun id => (hsame id).le) fun _ id => (hsame id).ge
  · next hfails =>
    exact .keep hkeeps hdeleted (fun id => by rw [hheld]; omega) fun hmeets => absurd hmeets hfails

theorem effect_runJob {i : ℕ} {job : SourceJob} {start : FetchStart}
    (hjob : this.jobs[i]? = some job)
    (hstep : runJob { this with jobs := this.jobs.eraseIdx i } start job = some that)
    (hcondition : ∀ redisArgs, job = .redistributeSourceStream (some redisArgs) → condition →
      this.HasHost redisArgs ∧ start = .started) : Effect this that condition := by
  have hcount (id : ℕ) : this.held.count id = job.livesource.toList.count id +
      (held { this with jobs := this.jobs.eraseIdx i }).count id := by
    rw [count_held, count_held, count_filterMap SourceJob.livesource hjob]
    dsimp only
    omega
  cases job with
  | redistributeSourceStream redisArgs =>
    obtain ⟨redisArgs, rfl, rfl⟩ := Option.map_eq_some_iff.mp hstep
    have heffect :=
      effect_redistribute this { this with jobs := this.jobs.eraseIdx i } start rfl rfl hcount
    exact heffect.mono (hcondition redisArgs rfl)
  | livesourceDelDummy st livesource =>
    obtain ⟨r, hdel, rfl⟩ := Option.map_eq_some_iff.mp hstep
    exact .delete livesource r.2 hdel rfl hcount

theorem effect_connected {mountpoint : CString}
    (hstep : this.livesourceConnected st mountpoint memory = some that) :
    Effect this that condition := by
  rw [livesourceConnected] at hstep
  split at hstep
  · contradiction
  · next s hs =>
    split at hstep
    · contradiction
    · split at hstep
      · contradiction
      · next hown =>
        split at hstep
        · contradiction
        · next r hr =>
          split at hstep
          · next hone =>
            obtain rfl := Option.some.inj hstep
            obtain ⟨livesources, hregister, hhash, hheap⟩ := Livesources.connected_eq_one hr hone.1
            have hcount (id : ℕ) := count_filterMap SourceSession.ownLivesource hs id
            rw [Option.not_isSome_iff_eq_none.mp hown] at hcount
            have hheld (id : ℕ) := count_filterMap_set SourceSession.ownLivesource (b := { s with
              ownLivesource := some this.livesources.heap.length
              state := SessionState.waitStreamSource }) hs id
            have heq (id : ℕ) : (held { this with
                livesources := r.2.1
                sessions := this.sessions.set st { s with
                  ownLivesource := some this.livesources.heap.length
                  state := .waitStreamSource } }).count id =
                [this.livesources.heap.length].count id + this.held.count id := by
              rw [count_held, count_held, hheld, hcount]
              simp
              omega
            exact .create _ livesources LivesourceState.noConfusion hregister hhash hheap rfl
              (fun id => (heq id).le) fun _ id => (heq id).ge
          · obtain rfl := Option.some.inj hstep
            exact .of_held_eq (.refl _) rfl rfl

theorem effect_findOnDemand {st : Bool} {mountpoint : CString} {onDemand sourcelineOnDemand : Bool}
    {failure : OnDemandFailure}
    (hstep : this.livesourceFindOnDemand st mountpoint onDemand sourcelineOnDemand failure =
      some that) :
    Effect this that (failure = .none ∨ failure = .livesource) := by
  rw [livesourceFindOnDemand] at hstep
  split at hstep
  · next hcreates =>
    split at hstep
    · obtain rfl := Option.some.inj hstep
      exact .of_held_eq (.refl _) rfl rfl
    · next hmade =>
      obtain ⟨r, hr, rfl⟩ := Option.map_eq_some_iff.mp hstep
      obtain ⟨livesources, hregister, hhash, hheap⟩ :=
        Livesources.findOnDemand_of_creates hcreates hr
      refine .create _ livesources LivesourceState.noConfusion hregister hhash hheap rfl
        (fun id => ?_) fun hcondition id => ?_
      · rw [count_held, count_held, List.filterMap_append, List.count_append]
        have hone := OnDemandFailure.count_jobs_le failure ⟨this.livesources.heap.length,
          mountpoint, this.livesources.findRemoteEndpoint mountpoint, false⟩ id
        dsimp only at hone ⊢
        omega
      · obtain rfl := hcondition.resolve_right hmade
        rw [count_held, count_held, List.filterMap_append, List.count_append]
        simp [OnDemandFailure.jobs, SourceJob.livesource]
        omega
  · obtain rfl := Option.some.inj hstep
    exact .of_held_eq (.refl _) rfl rfl

/-- The job does not start a fetch, or it finds a host and the fetch is started. -/
def Fetches (this : SourceSystem F) (start : FetchStart) : SourceJob → Prop
  | .redistributeSourceStream (some redisArgs) => this.HasHost redisArgs ∧ start = .started
  | _ => True

/-- The step goes well: a job that starts a fetch finds a host, and the fetch is started; and there
is memory for the jobs. -/
def Succeeds (this : SourceSystem F) : SourceStep F → Prop
  | .livesourceFindOnDemand _ _ _ _ failure => failure = .none ∨ failure = .livesource
  | .runJob i start => ∀ job ∈ this.jobs[i]?, this.Fetches start job
  | .ntripNotifyClose _ memory => memory = true
  | .ntripDecrefEnd _ memory => memory = true
  | _ => True

instance decidableFetches (this : SourceSystem F) (start : FetchStart) :
    DecidablePred (this.Fetches start)
  | .redistributeSourceStream (some _) => inferInstanceAs (Decidable (_ ∧ _))
  | .redistributeSourceStream none => inferInstanceAs (Decidable True)
  | .livesourceDelDummy _ _ => inferInstanceAs (Decidable True)

instance decidableSucceeds (this : SourceSystem F) : DecidablePred this.Succeeds
  | .livesourceFindOnDemand _ _ _ _ _ => inferInstanceAs (Decidable (_ ∨ _))
  | .runJob i start => inferInstanceAs (Decidable (∀ job ∈ this.jobs[i]?, this.Fetches start job))
  | .ntripNotifyClose _ memory => inferInstanceAs (Decidable (memory = true))
  | .ntripDecrefEnd _ memory => inferInstanceAs (Decidable (memory = true))
  | .accept => inferInstanceAs (Decidable True)
  | .request _ => inferInstanceAs (Decidable True)
  | .livesourceConnected _ _ _ => inferInstanceAs (Decidable True)
  | .stackReplace _ _ _ _ _ => inferInstanceAs (Decidable True)
  | .updateExecute _ _ => inferInstanceAs (Decidable True)
  | .restart _ _ => inferInstanceAs (Decidable True)
  | .registerSource _ => inferInstanceAs (Decidable True)

/-- **What a step can do to the livesources.** -/
theorem step_effect {l : SourceStep F} (h : this.SoundSessions) (hstep : this.step l = some that) :
    Effect this that (this.Succeeds l) := by
  cases l with
  | accept =>
    obtain rfl := Option.some.inj hstep
    refine .of_held_eq (.refl _) rfl ?_
    simp [held]
  | request st =>
    rw [step] at hstep
    split at hstep
    · contradiction
    · next s hs =>
      split at hstep
      · obtain rfl := Option.some.inj hstep
        have hsame (id : ℕ) : (held { this with
            sessions := this.sessions.set st { s with state := .waitHttpHeader } }).count id =
            this.held.count id := by
          rw [count_held, count_held, count_filterMap_set _ hs, count_filterMap _ hs]
        exact .keep (.refl _) rfl (fun id => (hsame id).le) fun _ id => (hsame id).ge
      · contradiction
  | livesourceConnected st mountpoint memory => exact effect_connected hstep
  | livesourceFindOnDemand st mountpoint onDemand sourcelineOnDemand failure =>
    exact effect_findOnDemand hstep
  | stackReplace host port newSourcetable compareTv isLocal =>
    obtain rfl := Option.some.inj hstep
    exact .of_held_eq (.refl _) rfl rfl
  | updateExecute text j =>
    obtain ⟨r, hr, rfl⟩ := Option.map_eq_some_iff.mp hstep
    exact .of_held_eq (Livesources.keeps_updateExecute hr) rfl rfl
  | runJob i start =>
    rw [step] at hstep
    split at hstep
    · contradiction
    · next job hjob =>
      refine effect_runJob hjob hstep ?_
      rintro redisArgs rfl hsucceeds
      exact hsucceeds _ hjob
  | restart i start =>
    -- no timer is ever set
    obtain ⟨redisArgs, hget, -⟩ := Option.map_eq_some_iff.mp hstep
    rw [h.timers] at hget
    contradiction
  | registerSource st =>
    rw [step] at hstep
    split at hstep
    · contradiction
    · split at hstep
      · contradiction
      · split at hstep
        · obtain rfl := Option.some.inj hstep
          exact .of_held_eq (.refl _) rfl rfl
        · obtain ⟨r, hr, rfl⟩ := Option.map_eq_some_iff.mp hstep
          exact .of_held_eq (Livesources.keeps_setState (by decide) hr) rfl rfl
  | ntripNotifyClose st memory => exact effect_notifyClose h hstep
  | ntripDecrefEnd st memory =>
    rw [step] at hstep
    split at hstep
    · obtain rfl := Option.some.inj hstep
      exact effect_decrefEnd this st memory
    · contradiction

/-! ### Sessions and jobs -/

/-- A session or a job may go, and what is new must be sound. -/
theorem SoundSessions.congr (h : this.SoundSessions) (hsession : ∀ s ∈ that.sessions, s.Sound)
    (hjob : ∀ job ∈ that.jobs, job ∈ this.jobs ∨
      ∀ redisArgs, job = .redistributeSourceStream (some redisArgs) → redisArgs.persistent = false)
    (htimers : that.timers = this.timers) : that.SoundSessions where
  session := hsession
  job redisArgs hmem := by
    rcases hjob _ hmem with hold | hnew
    · exact h.job redisArgs hold
    · exact hnew redisArgs rfl
  timers := htimers.trans h.timers

theorem sessions_unregister (this : SourceSystem F) (st : ℕ) (memory : Bool) :
    (this.ntripUnregisterLivesource st memory).sessions =
      this.sessions.modify st fun s => { s with ownLivesource := none } := by
  rw [ntripUnregisterLivesource]
  split
  · next hown =>
    refine (List.ext_getElem? fun i => ?_).symm
    rw [List.getElem?_modify]
    split
    · next heq =>
      obtain rfl := heq
      cases hs : this.sessions[st]? with
      | none => rfl
      | some s =>
        rw [ownLivesource, hs, Option.bind_some] at hown
        rw [Option.map_eq_map, Option.map_some, ← hown]
    · exact Option.map_id_apply
  · rfl

theorem mem_jobs_unregister {job : SourceJob}
    (hjob : job ∈ (this.ntripUnregisterLivesource st memory).jobs) :
    job ∈ this.jobs ∨ ∃ livesource, job = .livesourceDelDummy st livesource := by
  rw [ntripUnregisterLivesource] at hjob
  split at hjob
  · exact .inl hjob
  · next livesource _ =>
    rcases List.mem_append.mp hjob with hjob | hjob
    · exact .inl hjob
    · split at hjob
      · exact .inr ⟨livesource, List.mem_singleton.mp hjob⟩
      · contradiction

theorem timers_unregister (this : SourceSystem F) (st : ℕ) (memory : Bool) :
    (this.ntripUnregisterLivesource st memory).timers = this.timers := by
  rw [ntripUnregisterLivesource]
  split <;> rfl

/-- A session is changed, then gives up what it owns. -/
theorem SoundSessions.unregister (h : this.SoundSessions) (f : SourceSession → SourceSession)
    (hf : ∀ s : SourceSession, s.Sound → { f s with ownLivesource := none : SourceSession }.Sound) :
    (ntripUnregisterLivesource { this with sessions := this.sessions.modify st f }
      st memory).SoundSessions := by
  refine h.congr ?_ (fun job hjob => ?_) (timers_unregister _ st memory)
  · rw [sessions_unregister, List.modify_modify_eq]
    exact forall_mem_modify h.session hf
  · rcases mem_jobs_unregister hjob with hold | ⟨livesource, rfl⟩
    · exact .inl hold
    · exact .inr fun redisArgs heq => SourceJob.noConfusion heq

theorem SoundSessions.redistribute (h : this.SoundSessions) {redisArgs : RedistributeArgs}
    {start : FetchStart} (honeShot : redisArgs.persistent = false) :
    (this.redistributeSourceStream redisArgs start).SoundSessions := by
  rw [redistributeSourceStream]
  split
  · refine h.congr (fun s hs => ?_) (fun job hjob => .inl hjob) rfl
    rcases List.mem_append.mp hs with hs | hs
    · exact h.session s hs
    · obtain rfl := List.mem_singleton.mp hs
      refine ⟨fun hclient => absurd hclient.symm Bool.false_ne_true, ?_, SessionState.noConfusion⟩
      rintro _ ⟨⟩
      exact honeShot
  · exact h

theorem SoundSessions.notifyClose (h : this.SoundSessions)
    (hstep : this.ntripNotifyClose st memory = some that) : that.SoundSessions := by
  have htask {s : SourceSession} (hs : s.Sound) : { s with task := none : SourceSession }.Sound :=
    ⟨hs.streaming, fun _ hnone => by contradiction, hs.ended⟩
  rw [ntripNotifyClose] at hstep
  split at hstep
  · contradiction
  · next s hs =>
    split at hstep
    · obtain rfl := Option.some.inj hstep
      exact h
    · split at hstep
      · obtain rfl := Option.some.inj hstep
        exact h
      · next redisArgs hargs =>
        have honeShot := (h.session s (List.mem_of_getElem? hs)).oneShot redisArgs hargs
        rw [redistributeEndCb] at hstep
        dsimp only at hstep
        rw [honeShot, if_neg Bool.false_ne_true] at hstep
        split at hstep
        · obtain rfl := Option.some.inj hstep
          refine h.unregister _ fun s hs => ⟨fun _ => ?_, (htask hs).oneShot, fun _ => rfl⟩
          exact fun hsome => absurd hsome Bool.false_ne_true
        · obtain rfl := Option.some.inj hstep
          exact h.congr (forall_mem_modify h.session fun s hs => htask hs) (fun _ => .inl) rfl

theorem SoundSessions.sound_set (h : this.SoundSessions) (st : ℕ) {s : SourceSession}
    (hs : s.Sound) : ∀ s' ∈ this.sessions.set st s, s'.Sound := by
  intro s' hs'
  rcases List.mem_or_eq_of_mem_set hs' with hold | rfl
  · exact h.session s' hold
  · exact hs

theorem SoundSessions.livesourceConnected {st : ℕ} {mountpoint : CString} {memory : Bool}
    (h : this.SoundSessions) (hstep : this.livesourceConnected st mountpoint memory = some that) :
    that.SoundSessions := by
  rw [SourceSystem.livesourceConnected] at hstep
  split at hstep
  · contradiction
  · next s hs =>
    split at hstep
    · contradiction
    · split at hstep
      · contradiction
      · split at hstep
        · contradiction
        · split at hstep
          · obtain rfl := Option.some.inj hstep
            have hnew : { s with
                ownLivesource := some this.livesources.heap.length
                state := .waitStreamSource : SourceSession }.Sound :=
              ⟨fun _ _ => rfl, (h.session s (List.mem_of_getElem? hs)).oneShot,
                SessionState.noConfusion⟩
            exact h.congr (h.sound_set st hnew) (fun _ => .inl) rfl
          · obtain rfl := Option.some.inj hstep
            exact h

theorem SoundSessions.livesourceFindOnDemand {st : Bool} {mountpoint : CString}
    {onDemand sourcelineOnDemand : Bool} {failure : OnDemandFailure} (h : this.SoundSessions)
    (hstep : this.livesourceFindOnDemand st mountpoint onDemand sourcelineOnDemand failure =
      some that) : that.SoundSessions := by
  rw [SourceSystem.livesourceFindOnDemand] at hstep
  split at hstep
  · split at hstep
    · obtain rfl := Option.some.inj hstep
      exact h
    · obtain ⟨r, -, rfl⟩ := Option.map_eq_some_iff.mp hstep
      refine h.congr h.session (fun job hjob => ?_) rfl
      rcases List.mem_append.mp hjob with hjob | hjob
      · exact .inl hjob
      · refine .inr ?_
        rintro redisArgs rfl
        cases failure <;> simp [OnDemandFailure.jobs] at hjob <;> rw [hjob]
  · obtain rfl := Option.some.inj hstep
    exact h

theorem SoundSessions.step {l : SourceStep F} (h : this.SoundSessions)
    (hstep : this.step l = some that) : that.SoundSessions := by
  cases l with
  | accept =>
    obtain rfl := Option.some.inj hstep
    refine h.congr (fun s hs => ?_) (fun _ => .inl) rfl
    rcases List.mem_append.mp hs with hs | hs
    · exact h.session s hs
    · obtain rfl := List.mem_singleton.mp hs
      exact ⟨fun _ hsome => absurd hsome Bool.false_ne_true, fun _ hnone => by contradiction,
        fun _ => rfl⟩
  | request st =>
    rw [SourceSystem.step] at hstep
    split at hstep
    · contradiction
    · next s hs =>
      split at hstep
      · next hstate =>
        obtain rfl := Option.some.inj hstep
        have hsound := h.session s (List.mem_of_getElem? hs)
        have hnew : { s with state := .waitHttpHeader : SourceSession }.Sound := by
          refine ⟨fun hclient hsome => ?_, hsound.oneShot, SessionState.noConfusion⟩
          rw [hsound.streaming hclient hsome] at hstate
          contradiction
        exact h.congr (h.sound_set st hnew) (fun _ => .inl) rfl
      · contradiction
  | livesourceConnected st mountpoint memory => exact h.livesourceConnected hstep
  | livesourceFindOnDemand st mountpoint onDemand sourcelineOnDemand failure =>
    exact h.livesourceFindOnDemand hstep
  | stackReplace host port newSourcetable compareTv isLocal =>
    obtain rfl := Option.some.inj hstep
    exact h.congr h.session (fun _ => .inl) rfl
  | updateExecute text j =>
    obtain ⟨r, -, rfl⟩ := Option.map_eq_some_iff.mp hstep
    exact h.congr h.session (fun _ => .inl) rfl
  | runJob i start =>
    rw [SourceSystem.step] at hstep
    split at hstep
    · contradiction
    · next job hjob =>
      have herase : SoundSessions { this with jobs := this.jobs.eraseIdx i } :=
        h.congr h.session (fun _ hmem => .inl (List.mem_of_mem_eraseIdx hmem)) rfl
      cases job with
      | redistributeSourceStream redisArgs =>
        obtain ⟨redisArgs, rfl, rfl⟩ := Option.map_eq_some_iff.mp hstep
        exact herase.redistribute (h.job redisArgs (List.mem_of_getElem? hjob))
      | livesourceDelDummy st livesource =>
        obtain ⟨r, -, rfl⟩ := Option.map_eq_some_iff.mp hstep
        exact herase.congr h.session (fun _ => .inl) rfl
  | restart i start =>
    obtain ⟨redisArgs, hget, -⟩ := Option.map_eq_some_iff.mp hstep
    rw [h.timers] at hget
    contradiction
  | registerSource st =>
    rw [SourceSystem.step] at hstep
    split at hstep
    · contradiction
    · split at hstep
      · contradiction
      · split at hstep
        · obtain rfl := Option.some.inj hstep
          exact h
        · obtain ⟨r, -, rfl⟩ := Option.map_eq_some_iff.mp hstep
          exact h.congr h.session (fun _ => .inl) rfl
  | ntripNotifyClose st memory => exact h.notifyClose hstep
  | ntripDecrefEnd st memory =>
    rw [SourceSystem.step, ntripDecrefEnd] at hstep
    split at hstep
    · obtain rfl := Option.some.inj hstep
      split
      · exact h
      · refine h.unregister _ fun s hs => ⟨fun _ hsome => ?_, hs.oneShot, fun _ => rfl⟩
        exact absurd hsome Bool.false_ne_true
    · contradiction

/-- The invariant of the system. -/
structure Sound (this : SourceSystem F) : Prop where
  livesources : this.SoundLivesources
  sessions : this.SoundSessions

theorem sound_new (hostname startDate : CString) (stack : Stack F) :
    (new hostname startDate stack).Sound :=
  ⟨soundLivesources_new hostname startDate stack, soundSessions_new hostname startDate stack⟩

theorem Sound.step {l : SourceStep F} (h : this.Sound) (hstep : this.step l = some that) :
    that.Sound :=
  ⟨h.livesources.effect (step_effect h.sessions hstep), h.sessions.step hstep⟩

theorem reachable_sound {hostname startDate : CString} {stack : Stack F}
    (h : Reachable hostname startDate stack this) : this.Sound := by
  refine h.invariant ?_ fun this l that hthis _ hstep => hthis.step hstep
  rintro _ rfl
  exact sound_new hostname startDate stack

end SourceSystem

end ChilopodCaster
