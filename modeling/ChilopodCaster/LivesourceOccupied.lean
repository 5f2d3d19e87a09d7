import ChilopodCaster.LivesourceCustody

/-!
# Owned, occupied and deleted mountpoints

Two things follow from what becomes of livesources. A mountpoint has one owner at most, and the
assertions of `livesource.c` about the table hold. And a mountpoint that is occupied, so that a
source would be refused, has something that runs its livesource or will remove it; but only as long
as the fetches find a host and are started, since `redistribute_source_stream` returns otherwise and
leaves the livesource in the table.

## Main definitions

* `SourceSystem.Exclusive`, `SourceSystem.AssertionsHold` — one owner, and no assertion fails
* `SourceSystem.OccupiedAttended` — something is left that can run or remove each livesource

## Main results

* `SourceSystem.reachable_owner` — a livesource has one owner at most, and is deleted once
* `SourceSystem.occupied_attended` — when something is left that can run or remove each livesource
-/

namespace ChilopodCaster

namespace SourceSystem

variable {F : Type} {this that : SourceSystem F} {st : ℕ}

/-! ### One owner at most -/

/-- A livesource has one owner at most, which has it in the table, and is deleted once at most. -/
structure Exclusive (this : SourceSystem F) : Prop where
  registered : ∀ st id, this.ownLivesource st = some id → this.livesources.Registered id
  oneOwner : ∀ st st' id, this.ownLivesource st = some id → this.ownLivesource st' = some id →
    st = st'
  oneMountpoint : ∀ (st st' id id' : ℕ) (l l' : Livesource), this.ownLivesource st = some id →
    this.ownLivesource st' = some id' → this.livesources.heap[id]? = some l →
    this.livesources.heap[id']? = some l' → l.mountpoint = l'.mountpoint → st = st'
  deletedOnce : this.deleted.Nodup

/-- The assertions that the functions for livesources make: `livesource_del` finds the livesource of
its job in the table, and a livesource that is made is not there already. -/
structure AssertionsHold (this : SourceSystem F) : Prop where
  del : ∀ st id, .livesourceDelDummy st id ∈ this.jobs → (this.livesources.del id).isSome
  connected : ∀ mountpoint, (this.livesources.connected mountpoint).isSome
  findOnDemand : ∀ st mountpoint onDemand sourcelineOnDemand,
    (this.livesources.findOnDemand st mountpoint onDemand sourcelineOnDemand).isSome

theorem mem_held_of_owns {id : ℕ} (h : this.ownLivesource st = some id) : id ∈ this.held := by
  obtain ⟨s, hs, hown⟩ := Option.bind_eq_some_iff.mp h
  exact List.mem_append_left _ (List.mem_filterMap.mpr ⟨s, List.mem_of_getElem? hs, hown⟩)

theorem SoundLivesources.oneOwner (h : this.SoundLivesources) {st' id : ℕ}
    (hst : this.ownLivesource st = some id) (hst' : this.ownLivesource st' = some id) :
    st = st' := by
  by_contra hne
  obtain ⟨s, hs, hown⟩ := Option.bind_eq_some_iff.mp hst
  obtain ⟨s', hs', hown'⟩ := Option.bind_eq_some_iff.mp hst'
  -- the other session is still there once the first one is left out
  have hmem : s' ∈ this.sessions.eraseIdx st := by
    refine List.mem_eraseIdx_iff_getElem?.mpr ⟨st', Ne.symm hne, hs'⟩
  have hcount := Holdings.count_filterMap SourceSession.ownLivesource hs id
  have hpos := List.count_pos_iff.mpr (List.mem_filterMap.mpr ⟨s', hmem, hown'⟩)
  have honce := h.once id
  rw [count_held, hcount, hown, Option.toList_some, List.count_singleton_self] at honce
  omega

theorem Sound.exclusive (h : this.Sound) : this.Exclusive where
  registered st id hown := h.livesources.registered id (mem_held_of_owns hown)
  oneOwner st st' id := h.livesources.oneOwner
  oneMountpoint st st' id id' l l' hown hown' hl hl' hname := by
    obtain ⟨l₁, hl₁, hget⟩ := h.livesources.registered id (mem_held_of_owns hown)
    obtain ⟨l₂, hl₂, hget'⟩ := h.livesources.registered id' (mem_held_of_owns hown')
    rw [hl, Option.some.injEq] at hl₁
    rw [hl', Option.some.injEq] at hl₂
    rw [← hl₁, hname, hl₂, hget', Option.some.injEq] at hget
    exact h.livesources.oneOwner hown (hget ▸ hown')
  deletedOnce := List.nodup_iff_count_le_one.mpr fun id =>
    (Nat.le_add_left _ _).trans (h.livesources.once id)

theorem SoundLivesources.exists_register (h : this.SoundLivesources) (np : Livesource)
    (hnone : this.livesources.findExisting np.mountpoint true = none) :
    ∃ livesources, this.livesources.register np = some livesources := by
  have hfree : this.livesources.hash.get np.mountpoint = none := by
    rw [Option.eq_none_iff_forall_ne_some]
    intro id hget
    obtain ⟨l, hl, -, hstate⟩ := h.filed np.mountpoint id hget
    rw [Livesources.findExisting, hget, Option.filter_some, hl, if_pos] at hnone
    · contradiction
    · cases hl : l.state <;> simp_all
  obtain ⟨hash, hadd⟩ := HashTable.exists_add hfree this.livesources.heap.length
  exact ⟨_, by rw [Livesources.register, hadd, Option.map_some]⟩

theorem Sound.assertionsHold (h : this.Sound) : this.AssertionsHold where
  del st id hjob := by
    have hmem : id ∈ this.held := List.mem_append_right _
      (List.mem_append_left _ (List.mem_filterMap.mpr ⟨_, hjob, rfl⟩))
    obtain ⟨l, hl, hget⟩ := h.livesources.registered id hmem
    obtain ⟨hash, hdel⟩ := HashTable.exists_del hget
    rw [Livesources.del, hl, Option.bind_eq_bind, Option.bind_some, hdel]
    rfl
  connected mountpoint := by
    rw [Livesources.connected, Livesources.findUnlocked,
      if_neg (fun hcreate => Bool.false_ne_true hcreate.2.2.1), Option.bind_eq_bind,
      Option.bind_some]
    split
    · rfl
    · next hnone =>
      obtain ⟨livesources, hregister⟩ := h.livesources.exists_register
        (.new mountpoint .direct .running) (Option.not_isSome_iff_eq_none.mp hnone)
      dsimp only
      rw [hregister]
      rfl
  findOnDemand st mountpoint onDemand sourcelineOnDemand := by
    rw [Livesources.findOnDemand, Livesources.findUnlocked]
    split
    · next hcreates =>
      obtain ⟨hnone, hon, -⟩ := hcreates
      rw [hon] at hnone
      obtain ⟨livesources, hregister⟩ := h.livesources.exists_register
        (.new mountpoint .fetched .fetchPending) hnone
      dsimp only
      rw [hregister]
      rfl
    · rfl

/-- **One owner at most per mountpoint.** In every state of every run, a session that owns a
livesource has it in the table under its name, no two sessions own the same livesource or have the
same mountpoint, no livesource is deleted twice, and no assertion fails. -/
theorem reachable_owner {hostname startDate : CString} {stack : Stack F}
    (h : Reachable hostname startDate stack this) : this.Exclusive ∧ this.AssertionsHold :=
  ⟨(reachable_sound h).exclusive, (reachable_sound h).assertionsHold⟩

/-- A source connects and goes; its livesource is deleted after another session has asked for it,
which then fetches the stream from elsewhere. -/
def refetched : List (SourceStep ℤ) :=
  [.accept, .request 0, .livesourceConnected 0 (cstr "M") true, .ntripDecrefEnd 0 true,
    .livesourceFindOnDemand true (cstr "M") true true .none, .runJob 0 .started,
    .livesourceFindOnDemand true (cstr "M") true true .none, .runJob 0 .started]

theorem reachable_owner_refetched :
    ∃ this : SourceSystem ℤ,
      Reachable (cstr "node") (cstr "2026-01-01T00:00:00.000Z") Stack.farNear this ∧
      this.ownLivesource 0 = none ∧ this.ownLivesource 1 = some 1 ∧ this.deleted = [0] ∧
      this.livesources.Registered 1 ∧ (this.livesources.connected (cstr "M")).isSome := by
  have hobserve : (refetched.foldlM (fun this l => if True then step this l else none)
      (new (cstr "node") (cstr "2026-01-01T00:00:00.000Z") Stack.farNear)).map
        (fun this => (this.ownLivesource 0, this.ownLivesource 1, this.deleted)) =
      some (none, some 1, [0]) := by
    decide +kernel
  obtain ⟨this, hrun, hthis⟩ := Option.map_eq_some_iff.mp hobserve
  simp only [Prod.mk.injEq] at hthis
  have hreach : Reachable (cstr "node") (cstr "2026-01-01T00:00:00.000Z") Stack.farNear this :=
    Transition.reachable_of_foldlM (.refl rfl) hrun
  obtain ⟨hexclusive, hassertions⟩ := reachable_owner hreach
  exact ⟨this, hreach, hthis.1, hthis.2.1, hthis.2.2, hexclusive.registered 1 1 hthis.2.1,
    hassertions.connected (cstr "M")⟩

/-! ### Something is left that can run or remove each livesource -/

/-- A job that starts a fetch carries the livesource, or a session that has not ended owns it, or a
job that deletes it is queued. -/
def Attended (this : SourceSystem F) (id : ℕ) : Prop :=
  (∃ redisArgs, .redistributeSourceStream (some redisArgs) ∈ this.jobs ∧
    redisArgs.livesource = id) ∨
  (∃ s ∈ this.sessions, s.state ≠ .ntripEnd ∧ s.ownLivesource = some id) ∨
  ∃ st, .livesourceDelDummy st id ∈ this.jobs

/-- A livesource in the table that is to be fetched is attended, and so is what holds a mountpoint
that `livesource_connected` would refuse to a source. -/
def OccupiedAttended (this : SourceSystem F) : Prop :=
  (∀ m id l, this.livesources.hash.get m = some id → this.livesources.heap[id]? = some l →
    l.state = .fetchPending → this.Attended id) ∧
  ∀ m r, this.livesources.connected m = some r → r.1 = 0 →
    ∃ id, this.livesources.hash.get m = some id ∧ this.Attended id

/-- The invariant of runs in which all goes well: every livesource in the table is held. -/
structure Covered (this : SourceSystem F) : Prop where
  sound : this.Sound
  held : ∀ m id, this.livesources.hash.get m = some id → id ∈ this.held

theorem Covered.step {l : SourceStep F} (h : this.Covered) (hsucceeds : this.Succeeds l)
    (hstep : this.step l = some that) : that.Covered := by
  refine ⟨h.sound.step hstep, fun m id hget => ?_⟩
  cases step_effect h.sound.sessions hstep with
  | keep hkeeps hdeleted hle hge =>
    rw [hkeeps.1] at hget
    exact mem_held_of_le (hge hsucceeds) (h.held m id hget)
  | create np livesources hstate hregister hhash hheap hdeleted hle hge =>
    obtain ⟨hash, hadd, rfl⟩ := Option.map_eq_some_iff.mp hregister
    have hcount := hge hsucceeds id
    refine List.count_pos_iff.mp (lt_of_lt_of_le ?_ hcount)
    rw [hhash, HashTable.get_add hadd] at hget
    split at hget
    · obtain rfl := Option.some.inj hget
      rw [List.count_singleton_self]
      omega
    · exact Nat.add_pos_right _ (List.count_pos_iff.mpr (h.held m id hget))
  | delete livesource q hdel hdeleted heq =>
    obtain ⟨l, hl, hdel⟩ := Option.bind_eq_some_iff.mp hdel
    obtain ⟨hash, hhash, hdel⟩ := Option.bind_eq_some_iff.mp hdel
    obtain ⟨hlivesources, -⟩ := Prod.mk.inj (Option.some.inj hdel)
    rw [← hlivesources] at hget
    dsimp only at hget
    rw [HashTable.get_del hhash] at hget
    split at hget
    · contradiction
    · next hne =>
      have hne' : livesource ≠ id := by
        rintro rfl
        obtain ⟨l', hl', rfl, -⟩ := h.sound.livesources.filed m livesource hget
        rw [hl, Option.some.injEq] at hl'
        exact hne (by rw [hl'])
      have hcount := heq id
      rw [List.count_singleton, if_neg (by simpa using hne'), Nat.zero_add] at hcount
      exact List.count_pos_iff.mp (hcount ▸ List.count_pos_iff.mpr (h.held m id hget))

theorem Covered.attended (h : this.Covered) {m : CString} {id : ℕ}
    (hget : this.livesources.hash.get m = some id) : this.Attended id := by
  have hheld := h.held m id hget
  rw [SourceSystem.held, h.sound.sessions.timers, List.map_nil, List.append_nil, List.mem_append,
    List.mem_filterMap, List.mem_filterMap] at hheld
  rcases hheld with ⟨s, hs, hown⟩ | ⟨job, hjob, hcarries⟩
  · refine .inr (.inl ⟨s, hs, fun hend => ?_, hown⟩)
    rw [(h.sound.sessions.session s hs).ended hend] at hown
    contradiction
  · cases job with
    | redistributeSourceStream redisArgs =>
      obtain ⟨redisArgs, rfl, hid⟩ := Option.map_eq_some_iff.mp hcarries
      exact .inl ⟨redisArgs, hjob, hid⟩
    | livesourceDelDummy st livesource =>
      obtain rfl := Option.some.inj hcarries
      exact .inr (.inr ⟨st, hjob⟩)

/-- A mountpoint is refused only if a livesource has it. -/
theorem exists_get_of_connected_eq_zero {m : CString} {r : ℤ × Livesources × List Json}
    (h : this.livesources.connected m = some r) (hr : r.1 = 0) :
    ∃ id, this.livesources.hash.get m = some id := by
  rw [Livesources.connected, Livesources.findUnlocked,
    if_neg (fun hcreate => Bool.false_ne_true hcreate.2.2.1), Option.bind_eq_bind,
    Option.bind_some] at h
  split at h
  · next hsome =>
    obtain ⟨id, hid⟩ := Option.isSome_iff_exists.mp hsome
    exact ⟨id, (Option.filter_eq_some_iff.mp hid).1⟩
  · obtain ⟨livesources, -, h⟩ := Option.bind_eq_some_iff.mp h
    obtain rfl := Option.some.inj h
    exact absurd hr one_ne_zero

/-- **Something is left that can run or remove each livesource**, in every state of a run whose
steps all go well: fetches find a host and are started, and there is memory for the jobs. -/
theorem occupied_attended {hostname startDate : CString} {stack : Stack F}
    (h : Transition.Reachable (· = new hostname startDate stack) Succeeds step this) :
    this.OccupiedAttended := by
  have hcovered : this.Covered := by
    refine h.invariant ?_ fun this l that hthis hsucceeds hstep => hthis.step hsucceeds hstep
    rintro _ rfl
    refine ⟨sound_new hostname startDate stack, fun m id hget => ?_⟩
    rw [new, Livesources.new, HashTable.get_new] at hget
    contradiction
  refine ⟨fun m id l hget _ _ => hcovered.attended hget, fun m r hr hzero => ?_⟩
  obtain ⟨id, hget⟩ := exists_get_of_connected_eq_zero hr hzero
  exact ⟨id, hget, hcovered.attended hget⟩

/-- A session asks for a source, which is fetched. -/
def fetched : List (SourceStep ℤ) :=
  [.accept, .request 0, .livesourceFindOnDemand true (cstr "M") true true .none,
    .runJob 0 .started]

theorem occupied_attended_fetched :
    ∃ this : SourceSystem ℤ, Transition.Reachable
      (· = new (cstr "node") (cstr "2026-01-01T00:00:00.000Z") Stack.farNear) Succeeds step this ∧
      this.livesources.hash.get (cstr "M") = some 0 ∧ this.Attended 0 := by
  have hobserve : (fetched.foldlM (fun this l => if Succeeds this l then step this l else none)
      (new (cstr "node") (cstr "2026-01-01T00:00:00.000Z") Stack.farNear)).map
        (fun this => (this.livesources.hash.get (cstr "M"),
          this.livesources.heap[0]?.map Livesource.state)) =
      some (some 0, some .fetchPending) := by
    decide +kernel
  obtain ⟨this, hrun, hthis⟩ := Option.map_eq_some_iff.mp hobserve
  simp only [Prod.mk.injEq] at hthis
  obtain ⟨hget, hstate⟩ := hthis
  obtain ⟨l, hl, hstate⟩ := Option.map_eq_some_iff.mp hstate
  have hreach := Transition.reachable_of_foldlM
    (.refl rfl : Transition.Reachable (· = new (cstr "node") (cstr "2026-01-01T00:00:00.000Z")
      Stack.farNear) Succeeds step _) hrun
  exact ⟨this, hreach, hget, (occupied_attended hreach).1 (cstr "M") 0 l hget hl hstate⟩

/-- The tables that have the mountpoint are withdrawn after a session has asked for it, and before
the job runs. -/
def withdrawn : List (SourceStep ℤ) :=
  [.accept, .request 0, .livesourceFindOnDemand true (cstr "M") true true .none,
    .stackReplace (some (cstr "far.example")) 2101 none false false,
    .stackReplace (some (cstr "near.example")) 2101 none false false, .runJob 0 .started]

/-- The livesource is left in the table, its session and job being gone: the mountpoint is
occupied. -/
theorem not_attended_withdrawn :
    ¬ ∀ this : SourceSystem ℤ,
      Reachable (cstr "node") (cstr "2026-01-01T00:00:00.000Z") Stack.farNear this →
      this.OccupiedAttended := by
  intro h
  have hobserve : (withdrawn.foldlM (fun this l => if True then step this l else none)
      (new (cstr "node") (cstr "2026-01-01T00:00:00.000Z") Stack.farNear)).map
        (fun this => (this.livesources.hash.get (cstr "M"),
          this.livesources.heap[0]?.map Livesource.state, this.sessions.map (·.ownLivesource),
          this.jobs)) =
      some (some 0, some .fetchPending, [none], []) := by
    decide +kernel
  obtain ⟨this, hrun, hthis⟩ := Option.map_eq_some_iff.mp hobserve
  simp only [Prod.mk.injEq] at hthis
  obtain ⟨hget, hstate, hsessions, hjobs⟩ := hthis
  obtain ⟨l, hl, hstate⟩ := Option.map_eq_some_iff.mp hstate
  have hattended := (h this (Transition.reachable_of_foldlM (.refl rfl) hrun)).1
    (cstr "M") 0 l hget hl hstate
  rcases hattended with ⟨redisArgs, hjob, -⟩ | ⟨s, hs, -, hown⟩ | ⟨st, hjob⟩
  · rw [hjobs] at hjob
    exact absurd hjob List.not_mem_nil
  · have hmem := List.mem_map_of_mem (f := SourceSession.ownLivesource) hs
    rw [hsessions, hown, List.mem_singleton] at hmem
    exact absurd hmem (Option.some_ne_none 0)
  · rw [hjobs] at hjob
    exact absurd hjob List.not_mem_nil

end SourceSystem

end ChilopodCaster
