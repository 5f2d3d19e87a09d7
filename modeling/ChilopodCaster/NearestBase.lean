import Mathlib.Algebra.Order.Ring.Defs
import ChilopodCaster.SourcetableStack
import ChilopodCaster.VirtualSwitch
import ChilopodCaster.Livesource
import ChilopodCaster.Lib.Transition

/-!
# The nearest base

For a client of a virtual mountpoint, `ntripsrv_redo_virtual_pos` looks for the nearest base. It
takes the part of the aggregated table that is within `lookup_dist` of the client, sorts it by
distance, and adapts `lookup_dist` to the number of bases that it finds: too few, and the distance
is doubled, up to a maximum; else it becomes that of the last base that is wanted, and a kilometre
more, whatever the maximum.

Distances are exact values of an arbitrary function.

## Main definitions

* `redoVirtualPos` — `ntripsrv_redo_virtual_pos`
* `NearestSession.step` — a session, and what changes between two calls
* `NearestSession.CloseEnough` — the last base that is wanted is a kilometre within the maximum

## Main results

* `Stack.nearest_of_pruned` — the first base of the table near a position is the nearest of all
* `NearestSession.reachable_bounded` — the maximum is respected, when each call is close enough
-/

namespace ChilopodCaster

/-! ### The sorted table -/

section

variable {α : Type*}

/-- In a list sorted by a relation that a property follows downwards, the elements with the property
come first. -/
theorem of_lt_countP {r : α → α → Prop} {p : α → Bool} {l : List α} (h : l.Pairwise r)
    (hp : ∀ a b, r a b → p b → p a) {k : ℕ} {a : α} (hk : k < l.countP p) (ha : l[k]? = some a) :
    p a := by
  induction l generalizing k with
  | nil => simp at ha
  | cons b l ih =>
    obtain ⟨hb, hl⟩ := List.pairwise_cons.mp h
    cases k with
    | zero =>
      obtain rfl := Option.some.inj ha
      obtain ⟨c, hc, hpc⟩ := List.countP_pos_iff.mp hk
      rcases List.mem_cons.mp hc with rfl | hc
      · exact hpc
      · exact hp b c (hb c hc) hpc
    | succ k =>
      rw [List.countP_cons] at hk
      refine ih hl ?_ ha
      split at hk
      · omega
      · omega

end

namespace Sourcetable

variable {F D : Type}

namespace DistTable

variable [LinearOrder D]

/-- `qsort` on a full array. -/
theorem distArray_sort {d : DistTable F D} {slots : List (Spos F D)}
    (hd : d.distArray = slots.map some) (hs : d.sizeDistArray = d.distArray.length) :
    d.sort.distArray = (slots.mergeSort fun p q => p.dist ≤ q.dist).map some := by
  rw [sort, hs, List.take_length, List.drop_length, List.append_nil, hd]
  refine (List.map_mergeSort fun p _ q _ => ?_).symm
  rw [cmpDist, Bool.decide_congr not_lt]

theorem pairwise_mergeSort (slots : List (Spos F D)) :
    (slots.mergeSort fun p q => p.dist ≤ q.dist).Pairwise fun p q => p.dist ≤ q.dist := by
  refine (List.pairwise_mergeSort (fun p q r hpq hqr => ?_) (fun p q => ?_) slots).imp
    of_decide_eq_true
  · exact decide_eq_true ((of_decide_eq_true hpq).trans (of_decide_eq_true hqr))
  · rw [Bool.or_eq_true, decide_eq_true_eq, decide_eq_true_eq]
    exact le_total p.dist q.dist

/-- The table lists these slots, by distance. -/
structure Sorted (this : DistTable F D) (slots : List (Spos F D)) : Prop where
  distArray : this.distArray = slots.map some
  sizeDistArray : this.sizeDistArray = slots.length
  sorted : slots.Pairwise fun p q => p.dist ≤ q.dist

end DistTable

/-- The lines of a table that are not virtual, with their distances. -/
def bases (this : Sourcetable F) (distance : Pos F → Pos F → D) (pos : Pos F) :
    List (Spos F D) := this.keyVal.elements.filterMap (spos distance pos)

/-- The slots are those of the lines that are not virtual, one for each. -/
structure ListedBy (this : Sourcetable F) (distance : Pos F → Pos F → D) (pos : Pos F)
    (slots : List (Spos F D)) : Prop where
  nodup : (slots.map Spos.mountpoint).Nodup
  mem_iff : ∀ p, p ∈ slots ↔ ∃ sp, this.keyVal.get p.mountpoint = some sp ∧ ¬sp.IsVirtual ∧
    p = ⟨distance sp.pos pos, sp.pos, sp.key, sp.onDemand⟩

theorem spos_eq_some {distance : Pos F → Pos F → D} {pos : Pos F} {e : CString × Sourceline F}
    {p : Spos F D} : spos distance pos e = some p ↔
      ¬e.2.IsVirtual ∧ ⟨distance e.2.pos pos, e.2.pos, e.2.key, e.2.onDemand⟩ = p := by
  rw [spos]
  split
  · next hvirtual => exact ⟨fun h => absurd h.symm (Option.some_ne_none p), fun h =>
      absurd hvirtual h.1⟩
  · next hvirtual => exact ⟨fun h => ⟨hvirtual, Option.some.inj h⟩, fun h => congrArg some h.2⟩

/-- The slots that are filled. -/
theorem listedBy_bases (this : Sourcetable F) (distance : Pos F → Pos F → D) (pos : Pos F) :
    this.ListedBy distance pos (this.bases distance pos) := by
  have hkey {e : CString × Sourceline F} (he : e ∈ this.keyVal.elements) : e.2.key = e.1 :=
    this.keyed e.1 e.2 (this.keyVal.mem_elements.mp he)
  constructor
  · rw [bases, List.Nodup, List.pairwise_map, List.pairwise_filterMap]
    refine (List.pairwise_map.mp this.keyVal.nodup_elements).imp_of_mem ?_
    intro a b ha hb hne p hp q hq heq
    obtain ⟨-, rfl⟩ := spos_eq_some.mp hp
    obtain ⟨-, rfl⟩ := spos_eq_some.mp hq
    exact hne ((hkey ha).symm.trans (heq.trans (hkey hb)))
  · intro p
    rw [bases, List.mem_filterMap]
    constructor
    · rintro ⟨e, he, hp⟩
      obtain ⟨hvirtual, rfl⟩ := spos_eq_some.mp hp
      refine ⟨e.2, ?_, hvirtual, rfl⟩
      dsimp only
      rw [hkey he]
      exact this.keyVal.mem_elements.mp he
    · rintro ⟨sp, hget, hvirtual, hp⟩
      exact ⟨(p.mountpoint, sp), this.keyVal.mem_elements.mpr hget,
        spos_eq_some.mpr ⟨hvirtual, hp.symm⟩⟩

theorem ListedBy.perm {this : Sourcetable F} {distance : Pos F → Pos F → D} {pos : Pos F}
    {slots slots' : List (Spos F D)} (h : this.ListedBy distance pos slots)
    (hperm : slots'.Perm slots) : this.ListedBy distance pos slots' :=
  ⟨(hperm.map Spos.mountpoint).nodup_iff.mpr h.nodup,
    fun p => hperm.mem_iff.trans (h.mem_iff p)⟩

/-- **The table of distances** of a counted table: its lines that are not virtual, by distance. -/
theorem exists_sorted [LinearOrder D] (distance : Pos F → Pos F → D) {this : Sourcetable F}
    (h : this.Counted) (pos : Pos F) :
    ∃ d slots, this.findPos distance pos = some d ∧ DistTable.Sorted d slots ∧
      slots.Perm (this.bases distance pos) := by
  obtain ⟨d, hfind, hd, hs⟩ := exists_findPos distance h pos
  have hperm := List.mergeSort_perm (this.bases distance pos) fun p q => p.dist ≤ q.dist
  refine ⟨d.sort, _, hfind, ⟨DistTable.distArray_sort hd hs, ?_,
    DistTable.pairwise_mergeSort _⟩, hperm⟩
  rw [DistTable.sort, hs, hd, List.length_map]
  exact hperm.length_eq.symm

end Sourcetable

/-! ### The nearest base is not pruned -/

namespace Stack

open Sourcetable

variable {F D : Type} [LinearOrder D]

/-- A line of the table near a position is near. -/
theorem near_of_get_flattenDist {live : CString → Bool} {distance : Pos F → Pos F → D}
    {stack : Stack F} {pos : Pos F} {maxDist : D} {r : Sourcetable F}
    (h : flattenDist live distance stack (some pos) maxDist = some r) {name : CString}
    {sp : Sourceline F} (hget : r.keyVal.get name = some sp) : distance sp.pos pos < maxDist := by
  obtain ⟨r', hr', -, hr⟩ := get_flattenDist live distance stack (some pos) maxDist
  obtain rfl := Option.some.inj (h.symm.trans hr')
  rw [hr] at hget
  obtain ⟨s, -, hs⟩ := List.exists_of_findSome?_eq_some hget
  exact of_decide_eq_true (Option.filter_eq_some_iff.mp hs).2

/-- A line of the whole table that is near is in the table near the position. -/
theorem get_flattenDist_of_near [Zero D] {live : CString → Bool} {distance : Pos F → Pos F → D}
    {stack : Stack F} {pos : Pos F} {maxDist : D} {r r₀ : Sourcetable F}
    (h : flattenDist live distance stack (some pos) maxDist = some r)
    (h₀ : flatten live distance stack = some r₀) {name : CString} {sp : Sourceline F}
    (hget : r₀.keyVal.get name = some sp) (hnear : distance sp.pos pos < maxDist) :
    r.keyVal.get name = some sp := by
  obtain ⟨r', hr', -, hr⟩ := get_flattenDist live distance stack (some pos) maxDist
  obtain rfl := Option.some.inj (h.symm.trans hr')
  obtain ⟨r₀', hr₀', -, hr₀⟩ := get_flattenDist live distance stack none 0
  obtain rfl := Option.some.inj (h₀.symm.trans hr₀')
  rw [hr₀, findSome?_filter_eligibleLine] at hget
  rw [hr, findSome?_filter_eligibleLine]
  cases hlines : eligibleLines live stack name with
  | nil => rw [hlines] at hget; contradiction
  | cons l ls =>
    rw [hlines, List.find?_cons_of_pos rfl] at hget
    obtain rfl := Option.some.inj hget
    exact List.find?_cons_of_pos (decide_eq_true hnear)

/-- **The nearest base despite pruning.** The table that `ntripsrv_redo_virtual_pos` builds lists
each line of the table near the position once, unless it is virtual, by distance; and no line of the
whole table that is not virtual is nearer than its first. -/
theorem nearest_of_pruned [Zero D] (live : CString → Bool) (distance : Pos F → Pos F → D)
    (stack : Stack F) (pos : Pos F) (lookupDist : D) :
    ∃ r r₀ d slots, flattenDist live distance stack (some pos) lookupDist = some r ∧
      flatten live distance stack = some r₀ ∧ r.findPos distance pos = some d ∧
      DistTable.Sorted d slots ∧ r.ListedBy distance pos slots ∧
      ∀ first ∈ slots.head?, ∀ name sp, r₀.keyVal.get name = some sp → ¬sp.IsVirtual →
        ¬distance sp.pos pos < first.dist := by
  obtain ⟨r, hr, hcounted, -⟩ := get_flattenDist live distance stack (some pos) lookupDist
  obtain ⟨r₀, hr₀, -, -⟩ := get_flattenDist live distance stack none 0
  obtain ⟨d, slots, hd, hsorted, hperm⟩ := exists_sorted distance hcounted pos
  have hlisted := (r.listedBy_bases distance pos).perm hperm
  refine ⟨r, r₀, d, slots, hr, hr₀, hd, hsorted, hlisted, ?_⟩
  intro first hfirst name sp hget hvirtual
  rw [not_lt]
  have hmem : first ∈ slots := List.mem_of_mem_head? hfirst
  rcases lt_or_ge (distance sp.pos pos) lookupDist with hnear | hfar
  · -- the line is in the pruned table too, and its slot does not come before the first
    have hsp := get_flattenDist_of_near hr hr₀ hget hnear
    have hkey : sp.key = name := r.keyed name sp hsp
    have hslot : ⟨distance sp.pos pos, sp.pos, sp.key, sp.onDemand⟩ ∈ slots :=
      (hlisted.mem_iff _).mpr ⟨sp, by rw [← hkey] at hsp; exact hsp, hvirtual, rfl⟩
    obtain ⟨rest, rfl⟩ := List.head?_eq_some_iff.mp hfirst
    rcases List.mem_cons.mp hslot with heq | hrest
    · exact (congrArg Spos.dist heq).ge
    · exact (List.pairwise_cons.mp hsorted.sorted).1 _ hrest
  · -- every slot is within the radius
    obtain ⟨sp', hget', -, hp⟩ := (hlisted.mem_iff first).mp hmem
    have hdist : first.dist = distance sp'.pos pos := congrArg Spos.dist hp
    rw [hdist]
    exact (near_of_get_flattenDist hr hget').le.trans hfar

end Stack

/-! ### A session -/

section

variable {F D : Type}

/-- What the search takes from `struct config`. -/
structure NearestConfig (D : Type) where
  nearestBaseCountTarget : ℤ
  maxNearestLookupDistanceM : D
  hysteresisM : D

/-- What the search uses of `struct ntrip_state`, and the bases of the jobs that it has queued. -/
structure NearestSession (F D : Type) where
  /-- `last_pos`, if `last_pos_valid` -/
  lastPos : Option (Pos F)
  sourceVirtual : Bool
  lookupDist : D
  maxMinDist : D
  lastRecomputePos : Option (Pos F)
  lastRecomputeDate : ℕ
  virtualMountpoint : Option CString
  mountpointPos : Pos F
  tmpPos : Option (Pos F)
  rtcmClientState : RtcmClientState
  switches : List (Sourcetable.Spos F D)

/-- What a call finds around it. -/
structure NearestEnv (F : Type) where
  stack : Stack F
  /-- `livesource_exists` -/
  live : CString → Bool
  /-- the state of the livesource that `livesource_find_on_demand` returns -/
  find : CString → Option LivesourceState
  /-- `ntrip_get_rtcm_pos` has a packet -/
  hasPos : CString → Bool
  now : ℕ

/-- The slot `dist_array[i]`; `none` stands for a read past the slots in use. -/
def Sourcetable.DistTable.slot (this : Sourcetable.DistTable F D) (i : ℕ) :
    Option (Sourcetable.Spos F D) :=
  if i < this.sizeDistArray then this.distArray[i]?.join else none

/-- A slot of a table that lists its slots. -/
theorem Sourcetable.DistTable.Sorted.slot [LinearOrder D] {d : Sourcetable.DistTable F D}
    {slots : List (Sourcetable.Spos F D)} (h : d.Sorted slots) (i : ℕ) : d.slot i = slots[i]? := by
  rw [DistTable.slot, h.sizeDistArray, h.distArray, List.getElem?_map]
  split
  · next hi => rw [List.getElem?_eq_getElem hi, Option.map_some, Option.join_some]
  · next hi => exact (List.getElem?_eq_none (Nat.not_lt.mp hi)).symm

/-- A client is switched to the first base of the table, unless it is served by that base, or by one
that is about as near. -/
def switchBase [LinearOrder D] [Sub D] (config : NearestConfig D) (distance : Pos F → Pos F → D)
    (env : NearestEnv F) (lastPos : Pos F) (first : Sourcetable.Spos F D)
    (this : NearestSession F D) : NearestSession F D :=
  let currentLivesourceLive := this.virtualMountpoint.any env.live
  if currentLivesourceLive = false ∨ this.virtualMountpoint ≠ some first.mountpoint then
    if currentLivesourceLive ∧
        distance this.mountpointPos lastPos - config.hysteresisM < first.dist then this
    else if env.find first.mountpoint = some .running ∨
        (first.onDemand ∧ env.find first.mountpoint = some .fetchPending) then
      { this with
        rtcmClientState := if env.hasPos first.mountpoint then .posOk else .posWait
        tmpPos := some first.pos
        switches := this.switches ++ [first] }
    else this
  else this

variable [LinearOrder D] [Ring D]

/-- The new `lookup_dist`; `none` stands for a read past the slots in use. -/
def adaptLookupDist (config : NearestConfig D) (s : Sourcetable.DistTable F D) (lookupDist : D) :
    Option D :=
  if 0 < config.nearestBaseCountTarget then
    if s.sizeDistArray < config.nearestBaseCountTarget then
      some (if config.maxNearestLookupDistanceM < lookupDist * 2 then
          config.maxNearestLookupDistanceM
        else lookupDist * 2)
    else (s.slot (config.nearestBaseCountTarget - 1).toNat).map fun slot => slot.dist + 1000
  else some lookupDist

/-- `ntripsrv_redo_virtual_pos`, once it has the table of distances -/
def redoWith (config : NearestConfig D) (distance : Pos F → Pos F → D) (env : NearestEnv F)
    (lastPos : Pos F) (s : Sourcetable.DistTable F D) (this : NearestSession F D) :
    Option (NearestSession F D) := do
  let lookupDist ← adaptLookupDist config s this.lookupDist
  if s.sizeDistArray = 0 then
    return { this with lookupDist := lookupDist }
  else
    let first ← s.slot 0
    return switchBase config distance env lastPos first { this with
      lookupDist := lookupDist
      lastRecomputePos := some lastPos
      lastRecomputeDate := env.now
      maxMinDist := if this.maxMinDist < first.dist then first.dist else this.maxMinDist }

/-- `ntripsrv_redo_virtual_pos`; `none` stands for a read past the slots in use. -/
def redoVirtualPos (config : NearestConfig D) (distance : Pos F → Pos F → D) (env : NearestEnv F)
    (this : NearestSession F D) : Option (NearestSession F D) :=
  match this.lastPos, this.sourceVirtual with
  | some lastPos, true =>
    match Stack.flattenDist env.live distance env.stack (some lastPos) this.lookupDist with
    | none => some this
    | some posSourcetable =>
      match posSourcetable.findPos distance lastPos with
      | none => some this
      | some s => redoWith config distance env lastPos s this
  | _, _ => some this

/-- What happens to a session. -/
inductive NearestEvent (F : Type)
  /-- the client sends its position -/
  | position (pos : Pos F)
  /-- the client is subscribed to another base, or to none -/
  | serve (virtualMountpoint : Option CString) (mountpointPos : Pos F)
  | redo (env : NearestEnv F)

end

namespace NearestSession

variable {F D : Type} [LinearOrder D] [Ring D] {config : NearestConfig D}
  {distance : Pos F → Pos F → D} {env : NearestEnv F} {this this' : NearestSession F D}

/-- One step; `none` stands for a read past the slots in use. -/
def step (config : NearestConfig D) (distance : Pos F → Pos F → D) (this : NearestSession F D) :
    NearestEvent F → Option (NearestSession F D)
  | .position pos => some { this with lastPos := some pos }
  | .serve virtualMountpoint mountpointPos => some { this with
      virtualMountpoint := virtualMountpoint
      mountpointPos := mountpointPos }
  | .redo env => redoVirtualPos config distance env this

/-- A new session: the distance is the maximum. -/
def Starts (config : NearestConfig D) (this : NearestSession F D) : Prop :=
  this.lookupDist = config.maxNearestLookupDistanceM ∧ this.switches = []

/-- If there are as many bases within the distance as are wanted, then there are as many a kilometre
within the maximum. -/
def CloseEnough (config : NearestConfig D) (distance : Pos F → Pos F → D)
    (this : NearestSession F D) : NearestEvent F → Prop
  | .redo env => ∀ pos ∈ this.lastPos,
      ∀ r ∈ Stack.flattenDist env.live distance env.stack (some pos) this.lookupDist,
        config.nearestBaseCountTarget ≤ (r.bases distance pos).length →
          config.nearestBaseCountTarget ≤ (r.bases distance pos).countP fun p =>
            p.dist + 1000 ≤ config.maxNearestLookupDistanceM
  | _ => True

instance (config : NearestConfig D) (distance : Pos F → Pos F → D) (this : NearestSession F D) :
    DecidablePred (CloseEnough config distance this)
  | .redo env => inferInstanceAs (Decidable (∀ pos ∈ this.lastPos,
      ∀ r ∈ Stack.flattenDist env.live distance env.stack (some pos) this.lookupDist,
        config.nearestBaseCountTarget ≤ (r.bases distance pos).length →
          config.nearestBaseCountTarget ≤ (r.bases distance pos).countP fun p =>
            p.dist + 1000 ≤ config.maxNearestLookupDistanceM))
  | .position _ => .isTrue trivial
  | .serve _ _ => .isTrue trivial

/-- The maximum is respected. -/
structure Bounded (config : NearestConfig D) (this : NearestSession F D) : Prop where
  lookupDist : this.lookupDist ≤ config.maxNearestLookupDistanceM
  switches : ∀ p ∈ this.switches, p.dist < config.maxNearestLookupDistanceM

/-! ### One call -/

/-- A new distance is found without a read past the slots. -/
theorem exists_adaptLookupDist {d : Sourcetable.DistTable F D}
    {slots : List (Sourcetable.Spos F D)} (h : d.Sorted slots) (lookupDist : D) :
    ∃ x, adaptLookupDist config d lookupDist = some x := by
  rw [adaptLookupDist]
  split
  · next hpos =>
    split
    · exact ⟨_, rfl⟩
    · next hlen =>
      rw [h.sizeDistArray] at hlen
      rw [h.slot, List.getElem?_eq_getElem (by omega)]
      exact ⟨_, rfl⟩
  · exact ⟨_, rfl⟩

/-- The new distance respects the maximum, if the last base that is wanted is close enough. -/
theorem adaptLookupDist_le [IsStrictOrderedRing D] {d : Sourcetable.DistTable F D}
    {slots : List (Sourcetable.Spos F D)} (h : d.Sorted slots) {lookupDist x : D}
    (hle : lookupDist ≤ config.maxNearestLookupDistanceM)
    (hclose : config.nearestBaseCountTarget ≤ slots.length →
      config.nearestBaseCountTarget ≤
        slots.countP fun p => p.dist + 1000 ≤ config.maxNearestLookupDistanceM)
    (hx : adaptLookupDist config d lookupDist = some x) :
    x ≤ config.maxNearestLookupDistanceM := by
  rw [adaptLookupDist] at hx
  split at hx
  · next hpos =>
    split at hx
    · obtain rfl := Option.some.inj hx
      split
      · exact le_refl _
      · next hlt => exact le_of_not_gt hlt
    · next hlen =>
      rw [h.sizeDistArray, not_lt] at hlen
      obtain ⟨slot, hslot, rfl⟩ := Option.map_eq_some_iff.mp hx
      rw [h.slot] at hslot
      -- the table is sorted, so the bases that are close enough come first
      have hcount := hclose hlen
      have hnear := of_lt_countP h.sorted
        (p := fun p => p.dist + 1000 ≤ config.maxNearestLookupDistanceM) (fun a b hab hb =>
          decide_eq_true ((add_le_add_left hab 1000).trans (of_decide_eq_true hb)))
        (by omega) hslot
      exact of_decide_eq_true hnear
  · obtain rfl := Option.some.inj hx
    exact hle

theorem lookupDist_switchBase {lastPos : Pos F} {first : Sourcetable.Spos F D} :
    (switchBase config distance env lastPos first this).lookupDist = this.lookupDist := by
  rw [switchBase]
  split
  · split
    · rfl
    · split
      · rfl
      · rfl
  · rfl

/-- The only base that a call switches to is the first one of the table. -/
theorem switches_switchBase {lastPos : Pos F} {first : Sourcetable.Spos F D} :
    (switchBase config distance env lastPos first this).switches ⊆ this.switches ++ [first] := by
  rw [switchBase]
  split
  · split
    · exact List.subset_append_left _ _
    · split
      · exact List.Subset.refl _
      · exact List.subset_append_left _ _
  · exact List.subset_append_left _ _

/-- A call does nothing, or it works with the table of distances, which lists the bases within the
distance. -/
theorem redoVirtualPos_cases (this : NearestSession F D) (env : NearestEnv F) :
    redoVirtualPos config distance env this = some this ∨
      ∃ lastPos r d slots, this.lastPos = some lastPos ∧
        Stack.flattenDist env.live distance env.stack (some lastPos) this.lookupDist = some r ∧
        Sourcetable.DistTable.Sorted d slots ∧ slots.Perm (r.bases distance lastPos) ∧
        redoVirtualPos config distance env this =
          redoWith config distance env lastPos d this := by
  unfold redoVirtualPos
  split
  · next lastPos hlastPos _ =>
    obtain ⟨r, hr, hcounted, -⟩ := Stack.get_flattenDist env.live distance env.stack (some lastPos)
      this.lookupDist
    obtain ⟨d, slots, hd, hsorted, hperm⟩ := Sourcetable.exists_sorted distance hcounted lastPos
    refine .inr ⟨lastPos, r, d, slots, hlastPos, hr, hsorted, hperm, ?_⟩
    rw [hr]
    dsimp only
    rw [hd]
  · exact .inl rfl

/-- **Reads stay within the slots.** -/
theorem isSome_step (this : NearestSession F D) (event : NearestEvent F) :
    (this.step config distance event).isSome = true := by
  cases event with
  | position pos => rfl
  | serve virtualMountpoint mountpointPos => rfl
  | redo env =>
    rw [step]
    rcases @redoVirtualPos_cases F D _ _ config distance this env with
      heq | ⟨lastPos, r, d, slots, -, -, hsorted, -, heq⟩
    · rw [heq, Option.isSome_some]
    · obtain ⟨x, hx⟩ := @exists_adaptLookupDist F D _ _ config d slots hsorted this.lookupDist
      rw [heq, redoWith, hx, Option.bind_eq_bind, Option.bind_some]
      split
      · rfl
      · next hsize =>
        rw [hsorted.sizeDistArray] at hsize
        rw [hsorted.slot, List.getElem?_eq_getElem (Nat.pos_of_ne_zero hsize)]
        rfl

/-- One step. -/
theorem Bounded.step [IsStrictOrderedRing D] {event : NearestEvent F} (h : Bounded config this)
    (hok : CloseEnough config distance this event)
    (hstep : this.step config distance event = some this') : Bounded config this' := by
  cases event with
  | position pos =>
    obtain rfl := Option.some.inj hstep
    exact ⟨h.lookupDist, h.switches⟩
  | serve virtualMountpoint mountpointPos =>
    obtain rfl := Option.some.inj hstep
    exact ⟨h.lookupDist, h.switches⟩
  | redo env =>
    rw [NearestSession.step] at hstep
    rcases @redoVirtualPos_cases F D _ _ config distance this env with
      heq | ⟨lastPos, r, d, slots, hlastPos, hr, hsorted, hperm, heq⟩
    · obtain rfl := Option.some.inj (heq.symm.trans hstep)
      exact h
    · have hclose := hok lastPos hlastPos r hr
      rw [← hperm.length_eq, ← hperm.countP_eq] at hclose
      rw [heq, redoWith] at hstep
      obtain ⟨x, hx, hstep⟩ := Option.bind_eq_some_iff.mp hstep
      have hle := adaptLookupDist_le hsorted h.lookupDist hclose hx
      split at hstep
      · obtain rfl := Option.some.inj hstep
        exact ⟨hle, h.switches⟩
      · obtain ⟨first, hfirst, hstep⟩ := Option.bind_eq_some_iff.mp hstep
        obtain rfl := Option.some.inj hstep
        refine ⟨lookupDist_switchBase.trans_le hle, fun p hp => ?_⟩
        rcases List.mem_append.mp (switches_switchBase hp) with hp | hp
        · exact h.switches p hp
        · obtain rfl := List.mem_singleton.mp hp
          -- the base is within the distance, which was within the maximum
          rw [hsorted.slot] at hfirst
          have hmem := hperm.subset (List.mem_of_getElem? hfirst)
          obtain ⟨sp, hget, -, hp⟩ := ((r.listedBy_bases distance lastPos).mem_iff p).mp hmem
          have hdist : p.dist = distance sp.pos lastPos := congrArg Sourcetable.Spos.dist hp
          rw [hdist]
          exact (Stack.near_of_get_flattenDist hr hget).trans_le h.lookupDist

/-- **The maximum distance.** When each call finds fewer bases within `lookup_dist` than are wanted,
or as many as are wanted a kilometre within the maximum, neither `lookup_dist` nor a base that the
client is switched to is ever beyond the maximum. No call reads past the slots in use. -/
theorem reachable_bounded [IsStrictOrderedRing D]
    (h : Transition.Reachable (Starts config) (CloseEnough config distance) (step config distance)
      this) :
    Bounded config this ∧ ∀ event, (this.step config distance event).isSome = true := by
  refine ⟨h.invariant ?_ fun _ _ _ hbounded hok hstep => hbounded.step hok hstep, isSome_step this⟩
  rintro s ⟨hlookup, hswitches⟩
  exact ⟨hlookup.le, fun p hp => absurd (hswitches ▸ hp) List.not_mem_nil⟩

/-- One base is wanted, within five kilometres. -/
def nearConfig : NearestConfig ℤ := ⟨1, 5000, 0⟩

/-- A new session at the origin. -/
def fresh : NearestSession ℤ ℤ where
  lastPos := some ⟨0, 0⟩
  sourceVirtual := true
  lookupDist := 5000
  maxMinDist := 0
  lastRecomputePos := none
  lastRecomputeDate := 0
  virtualMountpoint := none
  mountpointPos := ⟨0, 0⟩
  tmpPos := none
  rtcmClientState := .posWait
  switches := []

/-- The stack has one base. -/
def oneBase (lat : String) : NearestEnv ℤ where
  stack := (Sourcetable.fetch strtoll (cstr "far.example") 2101 false 2 [Stack.baseLine lat]
    ⟨0, 0⟩).toList
  live := fun _ => false
  find := fun _ => some .running
  hasPos := fun _ => false
  now := 0

/-- The base is four kilometres away, the maximum is five. -/
theorem reachable_bounded_near :
    ∃ this : NearestSession ℤ ℤ, this.lookupDist = 5000 ∧ this.switches.length = 1 ∧
      Bounded nearConfig this ∧
        ∀ event, (this.step nearConfig Stack.taxicab event).isSome = true := by
  have hobserve : (([.redo (oneBase "4000")] : List (NearestEvent ℤ)).foldlM
      (fun s l => if CloseEnough nearConfig Stack.taxicab s l then s.step nearConfig Stack.taxicab l
        else none) fresh).map (fun s => (s.lookupDist, s.switches.length)) = some (5000, 1) := by
    decide +kernel
  obtain ⟨this, hrun, hthis⟩ := Option.map_eq_some_iff.mp hobserve
  obtain ⟨hlookup, hlen⟩ := Prod.mk.inj hthis
  exact ⟨this, hlookup, hlen, reachable_bounded
    (Transition.reachable_of_foldlM (.refl ⟨rfl, rfl⟩) hrun)⟩

/-- One base is wanted, and is found at 4500 m: the distance becomes 5500 m. The base goes, and the
client is switched to one at 5200 m. -/
theorem not_bounded_beyond :
    ¬ ∀ (config : NearestConfig ℤ) (distance : Pos ℤ → Pos ℤ → ℤ) (this : NearestSession ℤ ℤ),
      Transition.Reachable (Starts config) (fun _ _ => True) (step config distance) this →
        Bounded config this ∧ ∀ event, (this.step config distance event).isSome = true := by
  intro hall
  have hobserve : (([.redo (oneBase "4500"), .redo (oneBase "5200")] :
      List (NearestEvent ℤ)).foldlM
      (fun s l => if True then s.step nearConfig Stack.taxicab l else none) fresh).map
      (fun s => (s.lookupDist, s.switches.map (·.dist))) = some (6200, [4500, 5200]) := by
    decide +kernel
  obtain ⟨this, hrun, hthis⟩ := Option.map_eq_some_iff.mp hobserve
  obtain ⟨hbounded, -⟩ := hall nearConfig Stack.taxicab this
    (Transition.reachable_of_foldlM (.refl ⟨rfl, rfl⟩) hrun)
  have hle := hbounded.lookupDist
  rw [(Prod.mk.inj hthis).1] at hle
  exact absurd hle (by decide)

end NearestSession

end ChilopodCaster
