import ChilopodCaster.Bytes

/-!
# Livesources and their subscribers

A livesource, in `livesource.c`, is a source of data the caster has now: one that sends its
stream, or one that is fetched from another caster. Its subscribers are the client sessions that
receive it; a session subscribed for a virtual source is moved to another source when this one
ends.

Subscribers are dropped by `livesource_kill_subscribers_unlocked`, which has two modes: all of
them when the source is closed, or those whose output has too long a backlog.

## Main definitions

* `Livesource` — `struct livesource`
* `Livesource.killSubscribersUnlocked` — the loop over the subscribers, with the calls it makes
* `Livesource.ClosesAll`, `Livesource.DropsBacklogged` — what each mode is for

## Main results

* `Livesource.killSubscribersUnlocked_eq` — what the loop does, in both modes
* `Livesource.killSubscribersUnlocked_iff` — when it does what it is for
-/

namespace ChilopodCaster

/-- `enum livesource_state`. -/
inductive LivesourceState
  | init
  | fetchPending
  | running
  deriving DecidableEq, Repr

/-- `enum livesource_type`. -/
inductive LivesourceType
  | direct
  | fetched
  deriving DecidableEq, Repr

/-- `struct subscriber`. A session is identified by a number. -/
structure Subscriber where
  ntripState : ℕ
  /-- backlog length at last send -/
  backlogLen : ℕ
  /-- the field `virtual` -/
  virt : Bool
  deriving DecidableEq, Repr

/-- `struct livesource`, less its lock and reference count. A session has one subscription at
most, so that its field `subscription` is the subscriber that names it. -/
structure Livesource where
  mountpoint : CString
  subscribers : List Subscriber
  nsubs : ℕ
  npackets : ℕ
  state : LivesourceState
  type : LivesourceType
  counted : nsubs = subscribers.length
  distinct : (subscribers.map Subscriber.ntripState).Nodup

namespace Livesource

/-- `livesource_new`. -/
def new (mountpoint : CString) (type : LivesourceType) (state : LivesourceState) : Livesource where
  mountpoint := mountpoint
  subscribers := []
  nsubs := 0
  npackets := 0
  state := state
  type := type
  counted := rfl
  distinct := List.nodup_nil

/-- `_livesource_del_subscriber_unlocked`, for a session that is subscribed here or not at all. -/
def delSubscriberUnlocked (this : Livesource) (st : ℕ) : Livesource :=
  { this with
    subscribers := this.subscribers.eraseP (·.ntripState = st)
    nsubs := if this.subscribers.any (·.ntripState = st) then this.nsubs - 1 else this.nsubs
    counted := by rw [List.length_eraseP, this.counted]
    distinct := this.distinct.sublist (List.eraseP_sublist.map _) }

/-- What `livesource_kill_subscribers_unlocked` leaves and does: the count it returns, the
sessions it ends by `ntrip_decref_end`, and those it queues `ntripsrv_redo_virtual_pos` for. -/
structure Killed where
  this : Livesource
  killed : ℕ
  ended : List ℕ
  redone : List ℕ

/-- The loop of `livesource_kill_subscribers_unlocked`, for one subscriber. -/
def killSubscriber (killBacklogged : ℤ) (backlogEvbuffer : ℕ) (r : Killed) (np : Subscriber) :
    Killed :=
  let backlogged : Bool := np.backlogLen > backlogEvbuffer
  let r :=
    if if killBacklogged ≠ 0 then backlogged else !np.virt then { r with killed := r.killed + 1 }
    else if killBacklogged = 0 ∧ np.virt then { r with redone := r.redone ++ [np.ntripState] }
    else r
  if killBacklogged = 0 ∨ backlogged then
    let r := { r with this := r.this.delSubscriberUnlocked np.ntripState }
    if !backlogged && !np.virt then { r with ended := r.ended ++ [np.ntripState] } else r
  else r

/-- `livesource_kill_subscribers_unlocked`. The loop keeps the next subscriber at hand, so it goes
through the list as it was. -/
def killSubscribersUnlocked (this : Livesource) (killBacklogged : ℤ) (backlogEvbuffer : ℕ) :
    Killed :=
  this.subscribers.foldl (killSubscriber killBacklogged backlogEvbuffer) ⟨this, 0, [], []⟩

/-- `livesource_end`. -/
def livesourceEnd (this : Livesource) : Killed := this.killSubscribersUnlocked 0 0

/-! ### What the loop does -/

/-- Whether the subscriber is unsubscribed. -/
def isDropped (killBacklogged : ℤ) (backlogEvbuffer : ℕ) (np : Subscriber) : Bool :=
  killBacklogged = 0 ∨ backlogEvbuffer < np.backlogLen

/-- Whether it is counted. -/
def isCounted (killBacklogged : ℤ) (backlogEvbuffer : ℕ) (np : Subscriber) : Bool :=
  if killBacklogged ≠ 0 then backlogEvbuffer < np.backlogLen else !np.virt

/-- Whether its session is ended. -/
def isEnded (killBacklogged : ℤ) (backlogEvbuffer : ℕ) (np : Subscriber) : Bool :=
  killBacklogged = 0 ∧ ¬ backlogEvbuffer < np.backlogLen ∧ ¬ np.virt

/-- Whether its session is moved to another source. -/
def isRedone (killBacklogged : ℤ) (np : Subscriber) : Bool := killBacklogged = 0 ∧ np.virt

variable (killBacklogged : ℤ) (backlogEvbuffer : ℕ)

theorem killSubscriber_eq (r : Killed) (np : Subscriber) :
    killSubscriber killBacklogged backlogEvbuffer r np =
      { this := if isDropped killBacklogged backlogEvbuffer np then
          r.this.delSubscriberUnlocked np.ntripState else r.this
        killed := r.killed + if isCounted killBacklogged backlogEvbuffer np then 1 else 0
        ended := r.ended ++
          if isEnded killBacklogged backlogEvbuffer np then [np.ntripState] else []
        redone := r.redone ++ if isRedone killBacklogged np then [np.ntripState] else [] } := by
  by_cases hk : killBacklogged = 0 <;> by_cases hb : backlogEvbuffer < np.backlogLen <;>
    cases hv : np.virt <;>
    simp [killSubscriber, isDropped, isCounted, isEnded, isRedone, hk, hb, hv]

theorem delSubscriberUnlocked_subscribers {this : Livesource} {kept rest : List Subscriber}
    {np : Subscriber} (h : this.subscribers = kept ++ np :: rest) :
    (this.delSubscriberUnlocked np.ntripState).subscribers = kept ++ rest := by
  have hdistinct := this.distinct
  rw [h, List.map_append, List.map_cons] at hdistinct
  have hkept : ∀ sub ∈ kept, ¬ decide (sub.ntripState = np.ntripState) = true := by
    intro sub hsub heq
    exact (List.nodup_append.mp hdistinct).2.2 _ (List.mem_map.mpr ⟨sub, hsub, rfl⟩) _
      List.mem_cons_self (of_decide_eq_true heq)
  change this.subscribers.eraseP (·.ntripState = np.ntripState) = kept ++ rest
  rw [h, List.eraseP_append_right _ hkept, List.eraseP_cons_of_pos (by simp)]

/-- The loop over the rest of the subscribers, those before having been kept. -/
theorem foldl_killSubscriber (rest kept : List Subscriber) (r : Killed)
    (h : r.this.subscribers = kept ++ rest) :
    let r' := rest.foldl (killSubscriber killBacklogged backlogEvbuffer) r
    r'.this.subscribers = kept ++ rest.filter (! isDropped killBacklogged backlogEvbuffer ·) ∧
    r'.killed = r.killed + rest.countP (isCounted killBacklogged backlogEvbuffer) ∧
    r'.ended = r.ended ++
      (rest.filter (isEnded killBacklogged backlogEvbuffer)).map Subscriber.ntripState ∧
    r'.redone = r.redone ++ (rest.filter (isRedone killBacklogged)).map Subscriber.ntripState := by
  induction rest generalizing kept r with
  | nil => exact ⟨by simpa using h, by simp, by simp, by simp⟩
  | cons np rest ih =>
    rw [List.foldl_cons]
    have hstep : (killSubscriber killBacklogged backlogEvbuffer r np).this.subscribers =
        (kept ++ if isDropped killBacklogged backlogEvbuffer np then [] else [np]) ++ rest := by
      rw [killSubscriber_eq]
      dsimp only
      split
      · rw [delSubscriberUnlocked_subscribers h, List.append_nil]
      · rw [h, List.append_assoc, List.singleton_append]
    obtain ⟨hsubs, hkilled, hended, hredone⟩ := ih _ _ hstep
    rw [killSubscriber_eq] at *
    refine ⟨?_, ?_, ?_, ?_⟩
    · rw [hsubs, List.append_assoc, List.filter_cons]
      cases isDropped killBacklogged backlogEvbuffer np <;> rfl
    · rw [hkilled, List.countP_cons, Nat.add_assoc, Nat.add_comm (List.countP _ _)]
    · rw [hended, List.append_assoc, List.filter_cons]
      cases isEnded killBacklogged backlogEvbuffer np <;> rfl
    · rw [hredone, List.append_assoc, List.filter_cons]
      cases isRedone killBacklogged np <;> rfl

/-- **What the loop does, in both modes.** -/
theorem killSubscribersUnlocked_eq (this : Livesource) :
    let r := this.killSubscribersUnlocked killBacklogged backlogEvbuffer
    r.this.subscribers = this.subscribers.filter (! isDropped killBacklogged backlogEvbuffer ·) ∧
    r.killed = this.subscribers.countP (isCounted killBacklogged backlogEvbuffer) ∧
    r.ended =
      (this.subscribers.filter (isEnded killBacklogged backlogEvbuffer)).map Subscriber.ntripState ∧
    r.redone = (this.subscribers.filter (isRedone killBacklogged)).map Subscriber.ntripState := by
  have h := foldl_killSubscriber killBacklogged backlogEvbuffer this.subscribers []
    ⟨this, 0, [], []⟩ rfl
  simp only [List.nil_append, Nat.zero_add] at h
  exact h

/-! ### What it is for -/

/-- When a source is closed, every subscriber is unsubscribed; the sessions are ended, but for
those of a virtual source, which are moved to another one. -/
def ClosesAll (this : Livesource) : Prop :=
  let r := this.killSubscribersUnlocked 0 0
  r.this.subscribers = [] ∧ r.this.nsubs = 0 ∧
    r.ended = (this.subscribers.filter (! ·.virt)).map Subscriber.ntripState ∧
    r.redone = (this.subscribers.filter (·.virt)).map Subscriber.ntripState

/-- The sessions whose backlog is over the limit are unsubscribed, ended and counted, the others are
left alone. -/
def DropsBacklogged (this : Livesource) (killBacklogged : ℤ) (backlogEvbuffer : ℕ) : Prop :=
  let r := this.killSubscribersUnlocked killBacklogged backlogEvbuffer
  r.this.subscribers = this.subscribers.filter (·.backlogLen ≤ backlogEvbuffer) ∧
    r.ended = (this.subscribers.filter (backlogEvbuffer < ·.backlogLen)).map Subscriber.ntripState ∧
    r.redone = [] ∧ r.killed = this.subscribers.countP (backlogEvbuffer < ·.backlogLen)

/-- Two parts of a list, one within the other, are the same if they have the same images. -/
theorem filter_map_eq_iff {α β : Type} {f : α → β} {p q : α → Bool} {l : List α}
    (h : ∀ a ∈ l, p a → q a) :
    (l.filter p).map f = (l.filter q).map f ↔ ∀ a ∈ l, q a → p a := by
  constructor
  · intro heq a ha hq
    have hsub : (l.filter q).filter p = l.filter p := by
      rw [List.filter_filter]
      refine List.filter_congr fun a ha => ?_
      cases hp : p a with
      | false => rfl
      | true => rw [h a ha hp]; rfl
    have hlen : ((l.filter q).filter p).length = (l.filter q).length := by
      rw [hsub]
      simpa using congrArg List.length heq
    exact List.length_filter_eq_length_iff.mp hlen a (List.mem_filter.mpr ⟨ha, hq⟩)
  · intro h'
    rw [List.filter_congr fun a ha => Bool.eq_iff_iff.mpr ⟨h a ha, h' a ha⟩]

theorem closesAll_iff (this : Livesource) :
    this.ClosesAll ↔ ∀ np ∈ this.subscribers, ¬ np.virt → np.backlogLen = 0 := by
  obtain ⟨hsubs, -, hended, hredone⟩ := killSubscribersUnlocked_eq 0 0 this
  have hnone : this.subscribers.filter (! isDropped 0 0 ·) = [] := by simp [isDropped]
  have hcounted := (this.killSubscribersUnlocked 0 0).this.counted
  rw [hnone] at hsubs
  rw [hsubs] at hcounted
  have hvirt : isRedone 0 = (·.virt) := by
    funext np
    simp [isRedone]
  rw [ClosesAll, hsubs, hcounted, hended, hredone, hvirt, filter_map_eq_iff (by simp [isEnded])]
  have hended' : (∀ np ∈ this.subscribers, (!np.virt) = true → isEnded 0 0 np = true) ↔
      ∀ np ∈ this.subscribers, ¬ np.virt → np.backlogLen = 0 := by
    refine forall₂_congr fun np _ => ?_
    cases hv : np.virt <;> simp [isEnded, hv]
  rw [hended']
  simp

theorem dropsBacklogged_iff (this : Livesource) (hk : killBacklogged ≠ 0) :
    this.DropsBacklogged killBacklogged backlogEvbuffer ↔
      ∀ np ∈ this.subscribers, np.backlogLen ≤ backlogEvbuffer := by
  obtain ⟨hsubs, hkilled, hended, hredone⟩ :=
    killSubscribersUnlocked_eq killBacklogged backlogEvbuffer this
  have hdropped : (fun np => ! isDropped killBacklogged backlogEvbuffer np) =
      fun np => decide (np.backlogLen ≤ backlogEvbuffer) := by
    funext np
    rw [Bool.eq_iff_iff]
    simp [isDropped, hk]
  have hcounted : isCounted killBacklogged backlogEvbuffer =
      fun np => decide (backlogEvbuffer < np.backlogLen) := by
    funext np
    rw [isCounted, if_pos hk]
  rw [DropsBacklogged, hsubs, hkilled, hended, hredone, hdropped, hcounted,
    filter_map_eq_iff (by simp [isEnded, hk])]
  simp [isEnded, isRedone, hk]

/-- **When the loop does what it is for.** A source is closed properly exactly when its
subscribers have no backlog, those of a virtual source apart; backlogged subscribers are dropped
properly only when there are none, since `ntrip_decref_end` is never called for them. -/
theorem killSubscribersUnlocked_iff (this : Livesource) :
    (this.ClosesAll ↔ ∀ np ∈ this.subscribers, ¬ np.virt → np.backlogLen = 0) ∧
    ∀ (killBacklogged : ℤ) (backlogEvbuffer : ℕ), killBacklogged ≠ 0 →
      (this.DropsBacklogged killBacklogged backlogEvbuffer ↔
        ∀ np ∈ this.subscribers, np.backlogLen ≤ backlogEvbuffer) :=
  ⟨closesAll_iff this, fun k limit hk => dropsBacklogged_iff k limit this hk⟩

/-- A source with one subscriber, which has a byte in its output buffer. -/
def oneByteBehind : Livesource where
  mountpoint := cstr "M"
  subscribers := [⟨7, 1, false⟩]
  nsubs := 1
  npackets := 0
  state := .running
  type := .direct
  counted := rfl
  distinct := by decide

theorem killSubscribersUnlocked_iff_oneByteBehind :
    oneByteBehind.DropsBacklogged 1 1 :=
  ((killSubscribersUnlocked_iff oneByteBehind).2 1 1 (by decide)).mpr (by decide)

/-- The subscriber is unsubscribed and counted, but its session is not ended. -/
theorem oneByteBehind_not_ended :
    ¬ oneByteBehind.ClosesAll ∧ ¬ oneByteBehind.DropsBacklogged 1 0 := by
  refine ⟨fun h => ?_, fun h => ?_⟩
  · exact absurd h.2.2.1 (by decide)
  · exact absurd h.2.1 (by decide)

end Livesource

end ChilopodCaster
