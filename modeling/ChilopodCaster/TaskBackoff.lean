import ChilopodCaster.Lib.Transition
import Mathlib.Algebra.Order.Ring.Int
import Mathlib.Tactic.Common

/-!
# The delay before a task tries again

A task that has lost its connection is rescheduled. The delay doubles each time up to a maximum, and
a connection brings it back to `refresh_delay`. Three fields carry this, and they are not set
together: the maximum is `refresh_delay` when the task is made, except for a graylog sender, which
has one of its own; a reload of a fetcher changes `refresh_delay` alone.

The maximum of a graylog sender is not in the schema of the configuration, and has no default. It is
zero, so the second delay is zero.

## Main definitions

* `RetryTask` — the delays of `struct ntrip_task`
* `RetryTask.step` — what happens to a task
* `RetryTask.Backs` — the delays are bounded, and do not decrease between two connections

## Main results

* `reachable_backs` — when they do
-/

namespace ChilopodCaster

/-- `enum task_state` -/
inductive RetryState
  | init
  | running
  | ended
  deriving DecidableEq, Repr

/-- What is seen of a task: a delay given to `event_add`, with the bounds at that time, or a
connection. -/
inductive RetryEvent
  | delay (d refreshDelay maxRetryDelay : ℤ)
  | connected
  deriving DecidableEq, Repr

/-- `struct ntrip_task`, its state and its delays. -/
structure RetryTask where
  state : RetryState
  refreshDelay : ℤ
  maxRetryDelay : ℤ
  currentRetryDelay : ℤ
  log : List RetryEvent
  deriving DecidableEq, Repr

/-- What a task is made from: an entry of the configuration file, where a delay that is not given is
zero. -/
inductive RetryConfig
  /-- `table_refresh_delay` of a proxy -/
  | proxy (tableRefreshDelay : ℤ)
  /-- `retry_delay` of a node -/
  | node (retryDelay : ℤ)
  /-- `retry_delay` of a graylog server -/
  | graylog (retryDelay : ℤ)
  deriving DecidableEq, Repr

/-- The delay, after `config_parse` has set the defaults. -/
def RetryConfig.refreshDelay : RetryConfig → ℤ
  | proxy d => if d = 0 then 600 else d
  | node d => if d = 0 then 1 else d
  | graylog d => if d = 0 then 1 else d

/-- What the task is given as its maximum. That of a graylog server is not in the schema, and
`config_parse` sets no default. -/
def RetryConfig.maxRetryDelay : RetryConfig → ℤ
  | proxy d => (proxy d).refreshDelay
  | node d => (node d).refreshDelay
  | graylog _ => 0

/-- A product stored in an `int`. -/
def storedInt (n : ℤ) : ℤ := (BitVec.ofInt 32 n).toInt

theorem storedInt_of_bounds {n : ℤ} (hlow : -2 ^ 31 ≤ n) (hhigh : n < 2 ^ 31) :
    storedInt n = n := by
  rw [storedInt, BitVec.toInt_ofInt]
  exact Int.bmod_eq_of_le_mul_two (by omega) (by omega)

namespace RetryTask

/-- `ntrip_task_new`, and what `graylog_sender_new` sets after it -/
def new (config : RetryConfig) : RetryTask where
  state := .init
  refreshDelay := config.refreshDelay
  maxRetryDelay := config.maxRetryDelay
  currentRetryDelay := config.refreshDelay
  log := []

/-- `connect_cb`, as far as the delays go -/
def connectCb (this : RetryTask) : RetryTask :=
  { this with
    currentRetryDelay := this.refreshDelay
    log := this.log ++ [.connected] }

/-- The delay after one that has been used. -/
def nextRetryDelay (this : RetryTask) : ℤ :=
  let doubled := storedInt ((if this.currentRetryDelay ≠ 0 then this.currentRetryDelay else 1) * 2)
  if this.maxRetryDelay < doubled then this.maxRetryDelay else doubled

/-- `ntrip_task_reschedule`; `event_new` may fail. -/
def reschedule (this : RetryTask) (eventNew : Bool) : RetryTask :=
  if this.state = .ended ∨ this.refreshDelay = 0 ∨ eventNew = false then this
  else
    { this with
      currentRetryDelay := this.nextRetryDelay
      log := this.log ++
        [.delay this.currentRetryDelay this.refreshDelay this.maxRetryDelay] }

/-- `ntrip_task_start`; with no session, the task is rescheduled. -/
def start (this : RetryTask) (session eventNew : Bool) : RetryTask :=
  let this := { this with state := .running }
  if session then this else this.reschedule eventNew

/-- `ntrip_task_stop` -/
def stop (this : RetryTask) : RetryTask := { this with state := .ended }

/-- `fetcher_sourcetable_reload` -/
def reload (this : RetryTask) (refreshDelay : ℤ) (session eventNew : Bool) : RetryTask :=
  { this.stop with refreshDelay := refreshDelay }.start session eventNew

/-- What can happen to a task. -/
inductive Step
  | start (session eventNew : Bool)
  | connect
  | reschedule (eventNew : Bool)
  | stop
  /-- the configuration is reloaded, and the entry for the proxy has this delay -/
  | reload (tableRefreshDelay : ℤ) (session eventNew : Bool)
  deriving DecidableEq, Repr

/-- One step. -/
def step (this : RetryTask) : Step → Option RetryTask
  | .start session eventNew => some (this.start session eventNew)
  | .connect => some this.connectCb
  | .reschedule eventNew => some (this.reschedule eventNew)
  | .stop => some this.stop
  | .reload d session eventNew =>
    some (this.reload (RetryConfig.proxy d).refreshDelay session eventNew)

/-! ### Bounded and monotone -/

/-- Each delay is at least `refresh_delay` and at most the larger of it and the maximum, and of two
delays without a connection between them the later one is not smaller. -/
structure Backs (log : List RetryEvent) : Prop where
  bounded : ∀ d refreshDelay maxRetryDelay, .delay d refreshDelay maxRetryDelay ∈ log →
    refreshDelay ≤ d ∧ d ≤ max refreshDelay maxRetryDelay
  monotone : ∀ l d r m l' d' r' m' l'',
    log = l ++ RetryEvent.delay d r m :: (l' ++ RetryEvent.delay d' r' m' :: l'') →
      RetryEvent.connected ∉ l' → d ≤ d'

/-- A new task that backs off: its delay is positive, not larger than its maximum, and can be
doubled. -/
def Init (this : RetryTask) : Prop :=
  ∃ config : RetryConfig, 0 < config.refreshDelay ∧ config.refreshDelay ≤ config.maxRetryDelay ∧
    config.maxRetryDelay < 2 ^ 30 ∧ this = new config

/-- A reload does not bring the delay of a task above the one that comes next. -/
def Sensible (this : RetryTask) : Step → Prop
  | .reload d _ _ => 0 < (RetryConfig.proxy d).refreshDelay ∧
      (RetryConfig.proxy d).refreshDelay ≤ this.currentRetryDelay
  | _ => True

instance instDecidableSensible (this : RetryTask) (s : Step) : Decidable (this.Sensible s) :=
  match s with
  | .start _ _ => inferInstanceAs (Decidable True)
  | .connect => inferInstanceAs (Decidable True)
  | .reschedule _ => inferInstanceAs (Decidable True)
  | .stop => inferInstanceAs (Decidable True)
  | .reload d _ _ => inferInstanceAs (Decidable (0 < (RetryConfig.proxy d).refreshDelay ∧
      (RetryConfig.proxy d).refreshDelay ≤ this.currentRetryDelay))

/-- The next delay is between the other two, and not below those since the last connection. -/
structure Sound (this : RetryTask) : Prop where
  pos : 0 < this.refreshDelay
  le_current : this.refreshDelay ≤ this.currentRetryDelay
  current_le : this.currentRetryDelay ≤ this.maxRetryDelay
  doubles : this.maxRetryDelay < 2 ^ 30
  backs : Backs this.log
  since : ∀ l d r m l', this.log = l ++ .delay d r m :: l' → .connected ∉ l' →
    d ≤ this.currentRetryDelay

theorem Backs.append {log : List RetryEvent} (h : Backs log) {e : RetryEvent}
    (hbounded : ∀ d r m, e = .delay d r m → r ≤ d ∧ d ≤ max r m)
    (hmonotone : ∀ l d r m l' d' r' m', e = .delay d' r' m' →
      log = l ++ RetryEvent.delay d r m :: l' → RetryEvent.connected ∉ l' → d ≤ d') :
    Backs (log ++ [e]) := by
  refine ⟨fun d r m hmem => ?_, fun l d r m l' d' r' m' l'' heq hl' => ?_⟩
  · rcases List.mem_append.mp hmem with hmem | hmem
    · exact h.bounded d r m hmem
    · exact hbounded d r m (List.mem_singleton.mp hmem).symm
  · rcases List.eq_nil_or_concat l'' with rfl | ⟨l'', last, rfl⟩
    · have heq' : log ++ [e] = (l ++ .delay d r m :: l') ++ [.delay d' r' m'] := by
        rw [heq, List.append_assoc, List.cons_append]
      obtain ⟨hlog, he⟩ := List.append_inj' heq' rfl
      exact hmonotone l d r m l' d' r' m' (List.singleton_inj.mp he) hlog hl'
    · have heq' : log ++ [e] =
          (l ++ .delay d r m :: (l' ++ .delay d' r' m' :: l'')) ++ [last] := by
        rw [heq, List.concat_eq_append, List.append_assoc, List.cons_append, List.append_assoc,
          List.cons_append]
      exact h.monotone l d r m l' d' r' m' l'' (List.append_inj' heq' rfl).1 hl'

theorem Sound.le_next {this : RetryTask} (h : this.Sound) :
    this.currentRetryDelay ≤ this.nextRetryDelay ∧ this.nextRetryDelay ≤ this.maxRetryDelay := by
  obtain ⟨hpos, hle, hmax, hdoubles, -, -⟩ := h
  have hne : this.currentRetryDelay ≠ 0 := by omega
  rw [nextRetryDelay, if_pos hne, storedInt_of_bounds (by omega) (by omega)]
  split <;> omega

theorem Sound.setState {this : RetryTask} (h : this.Sound) (state : RetryState) :
    { this with state := state }.Sound :=
  ⟨h.pos, h.le_current, h.current_le, h.doubles, h.backs, h.since⟩

/-- A delay is used, and the next one is not smaller. -/
theorem Sound.reschedule {this : RetryTask} (h : this.Sound) (eventNew : Bool) :
    (this.reschedule eventNew).Sound := by
  rw [RetryTask.reschedule]
  split
  · exact h
  · obtain ⟨hnext, hnextMax⟩ := h.le_next
    have hle := h.le_current
    have hmax := h.current_le
    refine ⟨h.pos, hle.trans hnext, hnextMax, h.doubles, h.backs.append ?_ ?_, ?_⟩
    · rintro d r m hd
      obtain ⟨rfl, rfl, rfl⟩ := RetryEvent.delay.inj hd
      exact ⟨hle, hmax.trans (le_max_right _ _)⟩
    · rintro l d r m l' d' r' m' hd hlog hl'
      obtain ⟨rfl, -, -⟩ := RetryEvent.delay.inj hd
      exact h.since l d r m l' hlog hl'
    · intro l d r m l' heq hl'
      rcases List.eq_nil_or_concat l' with rfl | ⟨l', last, rfl⟩
      · obtain ⟨-, hd⟩ := List.append_inj' heq rfl
        obtain ⟨rfl, -, -⟩ := RetryEvent.delay.inj (List.singleton_inj.mp hd)
        exact hnext
      · rw [List.concat_eq_append, ← List.cons_append, ← List.append_assoc] at heq
        rw [List.concat_eq_append] at hl'
        refine (h.since l d r m l' (List.append_inj' heq rfl).1 fun hmem => hl' ?_).trans hnext
        exact List.mem_append_left _ hmem

theorem Sound.start {this : RetryTask} (h : this.Sound) (session eventNew : Bool) :
    (this.start session eventNew).Sound := by
  rw [RetryTask.start]
  cases session with
  | true => exact h.setState .running
  | false => exact (h.setState .running).reschedule eventNew

theorem Sound.connectCb {this : RetryTask} (h : this.Sound) : this.connectCb.Sound := by
  refine ⟨h.pos, le_rfl, h.le_current.trans h.current_le, h.doubles, h.backs.append ?_ ?_, ?_⟩
  · rintro d r m hd
    contradiction
  · rintro l d r m l' d' r' m' hd
    contradiction
  · -- The last event is the connection, so nothing has been used since.
    intro l d r m l' heq hl'
    rcases List.eq_nil_or_concat l' with rfl | ⟨l', last, rfl⟩
    · obtain ⟨-, hd⟩ := List.append_inj' heq rfl
      exact absurd (List.singleton_inj.mp hd) (by simp)
    · rw [List.concat_eq_append, ← List.cons_append, ← List.append_assoc] at heq
      rw [List.concat_eq_append] at hl'
      obtain rfl := List.singleton_inj.mp (List.append_inj' heq rfl).2
      exact absurd (List.mem_append_right _ (List.mem_singleton_self _)) hl'

theorem Sound.reload {this : RetryTask} (h : this.Sound) {d : ℤ} (hpos : 0 < d)
    (hle : d ≤ this.currentRetryDelay) (session eventNew : Bool) :
    (this.reload d session eventNew).Sound := by
  have hset : ({ this.stop with refreshDelay := d } : RetryTask).Sound :=
    ⟨hpos, hle, h.current_le, h.doubles, h.backs, h.since⟩
  exact hset.start session eventNew

theorem Sound.step {this that : RetryTask} {s : Step} (h : this.Sound) (hs : this.Sensible s)
    (hstep : this.step s = some that) : that.Sound := by
  cases s with
  | start session eventNew =>
    obtain rfl := Option.some.inj hstep
    exact h.start session eventNew
  | connect =>
    obtain rfl := Option.some.inj hstep
    exact h.connectCb
  | reschedule eventNew =>
    obtain rfl := Option.some.inj hstep
    exact h.reschedule eventNew
  | stop =>
    obtain rfl := Option.some.inj hstep
    exact h.setState .ended
  | reload d session eventNew =>
    obtain rfl := Option.some.inj hstep
    exact h.reload hs.1 hs.2 session eventNew

theorem sound_init {this : RetryTask} (h : Init this) : this.Sound := by
  obtain ⟨config, hpos, hle, hdoubles, rfl⟩ := h
  refine ⟨hpos, le_rfl, hle, hdoubles, ⟨fun d r m hmem => ?_, ?_⟩, ?_⟩
  · exact absurd hmem List.not_mem_nil
  · intro l d r m l' d' r' m' l'' heq
    exact absurd heq.symm (List.append_ne_nil_of_right_ne_nil _ (List.cons_ne_nil _ _))
  · intro l d r m l' heq
    exact absurd heq.symm (List.append_ne_nil_of_right_ne_nil _ (List.cons_ne_nil _ _))

/-- **Bounded and monotone delays**, when the delay is positive and not above the maximum, and no
reload brings it above the delay that comes next. -/
theorem reachable_backs {this : RetryTask}
    (h : Transition.Reachable Init Sensible step this) : Backs this.log :=
  (h.invariant (fun _ => sound_init) fun _ _ _ hs hok hstep => hs.step hok hstep).backs

/-- A fetcher fails, connects, and is reloaded with a smaller delay before it fails again. -/
def reloadedFetcher : List Step :=
  [.start true true, .reschedule true, .start true true, .connect, .reload 300 true true,
    .reschedule true]

theorem reachable_backs_reloadedFetcher : ∃ this : RetryTask,
    this.log = [.delay 600 600 600, .connected, .delay 600 300 600] ∧ Backs this.log := by
  have hinit : Init (new (.proxy 0)) := ⟨.proxy 0, by decide, by decide, by decide, rfl⟩
  have hrun : reloadedFetcher.foldlM (fun s l => if s.Sensible l then step s l else none)
      (new (.proxy 0)) =
        some ⟨.running, 300, 600, 600, [.delay 600 600 600, .connected, .delay 600 300 600]⟩ := by
    decide +kernel
  exact ⟨_, rfl, reachable_backs (Transition.reachable_of_foldlM (.refl hinit) hrun)⟩

/-- A sender that fails twice. -/
def failingSender : List Step :=
  [.start true true, .reschedule true, .start true true, .reschedule true]

/-- **The second delay of a graylog sender is zero.** -/
theorem not_backs_graylog : ¬ ∀ (config : RetryConfig) (this : RetryTask),
    Transition.Reachable (· = new config) (fun _ _ => True) step this → Backs this.log := by
  intro h
  have hrun : failingSender.foldlM (fun s l => if True then step s l else none)
      (new (.graylog 0)) =
        some ⟨.running, 1, 0, 0, [.delay 1 1 0, .delay 0 1 0]⟩ := by
    decide +kernel
  have hbacks := h (.graylog 0) _ (Transition.reachable_of_foldlM (.refl rfl) hrun)
  exact absurd (hbacks.bounded 0 1 0 (by decide)).1 (by decide)

end RetryTask

end ChilopodCaster
