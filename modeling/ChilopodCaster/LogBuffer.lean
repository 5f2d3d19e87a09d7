import ChilopodCaster.Lib.Ring
import ChilopodCaster.SourcetableJson

/-!
# The log buffer

The last entries of the log are kept in memory for the administration page, which polls for those
after the last one it has (`logbuf.c`). There are two rings: a general one, and one for warnings and
worse, so that these are not swept away by less important entries. A poll takes from the general
ring all that it has, and recovers from the other what is older.

Ids are 64-bit numbers. An addition that overflows is undefined, and so is an access outside of a
ring: neither has a result. For the bit fields overflow wraps around, as what they give does not
depend on it; here it would decide which entries a poll reports.

## Main definitions

* `Logbuf`, `Logbuf.add` — `struct logbuf` and `logbuf_add`
* `Logbuf.jsonSince` — `logbuf_json_since`
* `Logbuf.Reported` — the entries that a poll should report

## Main results

* `Logbuf.Filled.add` — the rings hold the last entries
* `Logbuf.polledExactly_iff` — a poll reports them, unless it asks for those after the largest id
-/

namespace ChilopodCaster

/-- `LOG_WARNING`. -/
def logWarning : ℤ := 4

/-- `struct logbuf_entry`. -/
structure LogbufEntry where
  id : ℤ
  ts : Timeval
  level : ℤ
  threadId : ℤ
  connectionId : ℕ
  remoteIp : Option CString
  remotePort : ℤ
  message : Option CString
  deriving DecidableEq

/-- The arguments of `logbuf_add`. -/
structure LogRecord where
  level : ℤ
  threadId : ℤ
  connectionId : ℕ
  remoteIp : Option CString
  remotePort : ℤ
  ts : Timeval
  message : CString

namespace LogbufEntry

/-- An entry of zeros. -/
def zero : LogbufEntry := ⟨0, ⟨0, 0⟩, 0, 0, 0, none, 0, none⟩

/-- `logbuf_store`. -/
def store (id : ℤ) (r : LogRecord) : LogbufEntry where
  id := id
  ts := r.ts
  level := r.level
  threadId := r.threadId
  connectionId := r.connectionId
  remoteIp := r.remoteIp
  remotePort := r.remotePort
  message := some r.message

/-- `logbuf_entry_add_json`: what is added to the array. -/
def json (e : LogbufEntry) : Json :=
  .object ([(cstr "id", Json.int e.id), (cstr "level", Json.int e.level),
      (cstr "thread_id", Json.int e.threadId)] ++
    (if e.connectionId ≠ 0 then [(cstr "connection_id", Json.int e.connectionId)] else []) ++
    (match e.remoteIp with
      | none => []
      | some ip => [(cstr "remote_ip", Json.string ip),
          (cstr "remote_port", Json.int e.remotePort)]) ++
    [(cstr "message", Json.string (e.message.getD [])),
      (cstr "timestamp", Json.string (IsoDate.isoDateFromTimeval e.ts))])

/-- `logbuf_entry_cmp`. -/
def cmp (a b : LogbufEntry) : ℤ :=
  (if a.id > b.id then 1 else 0) - (if a.id < b.id then 1 else 0)

end LogbufEntry

/-- `i + 1`, of type `long long`; `none` is an overflow. -/
def succInt64 (i : ℤ) : Option ℤ := if i < 2 ^ 63 - 1 then some (i + 1) else none

/-- `slots[i]`; `none` is a place outside of the array. -/
def getSlot (slots : List LogbufEntry) (i : ℤ) : Option LogbufEntry :=
  if 0 ≤ i then slots[i.toNat]? else none

/-- `slots[i] = e`; `none` is a place outside of the array. -/
def setSlot (slots : List LogbufEntry) (i : ℤ) (e : LogbufEntry) : Option (List LogbufEntry) :=
  if 0 ≤ i ∧ i < slots.length then some (slots.set i.toNat e) else none

/-- `struct logbuf`. -/
structure Logbuf where
  entries : List LogbufEntry
  priorityEntries : List LogbufEntry
  nextId : ℤ
  priorityNextId : ℤ

namespace Logbuf

/-- `LOGBUF_CAPACITY`. -/
def capacity : ℕ := 500

/-- `LOGBUF_PRIORITY_CAPACITY`. -/
def priorityCapacity : ℕ := 200

/-- `logbuf_init`. -/
def init : Logbuf where
  entries := List.replicate capacity .zero
  priorityEntries := List.replicate priorityCapacity .zero
  nextId := 0
  priorityNextId := 0

/-- `logbuf_add`. -/
def add (this : Logbuf) (r : LogRecord) : Option Logbuf := do
  let id := this.nextId
  let nextId ← succInt64 id
  let entries ← setSlot this.entries (id.tmod capacity) (.store id r)
  let this := { this with entries := entries, nextId := nextId }
  if r.level ≤ logWarning then
    let pid := this.priorityNextId
    let priorityNextId ← succInt64 pid
    let priorityEntries ← setSlot this.priorityEntries (pid.tmod priorityCapacity) (.store id r)
    return { this with priorityEntries := priorityEntries, priorityNextId := priorityNextId }
  else return this

/-- The entries of the general ring from an id on, for so many rounds of the loop. -/
def scan (entries : List LogbufEntry) : ℕ → ℤ → Option (List LogbufEntry)
  | 0, _ => some []
  | rounds + 1, id => do
    let e ← getSlot entries (id.tmod capacity)
    let l ← scan entries rounds (id + 1)
    return if e.id ≠ id then l else e :: l

/-- The id from which the general ring is read: the oldest one it has, or the one after `since`. -/
def start (this : Logbuf) (since : ℤ) : Option ℤ :=
  let start := if this.nextId > capacity then this.nextId - capacity else 0
  if start ≤ since then succInt64 since else some start

/-- The entries that `logbuf_json_since` adds to its array. -/
def since (this : Logbuf) (since : BitVec 64) : Option (List LogbufEntry) := do
  let start ← this.start since.toInt
  let recovered := this.priorityEntries.filter fun e =>
    e.message.isSome ∧ e.id > since.toInt ∧ e.id < start
  let l ← scan this.entries (this.nextId - start).toNat start
  return (recovered.mergeSort fun a b => LogbufEntry.cmp a b ≤ 0) ++ l

/-- `logbuf_json_since`. -/
def jsonSince (this : Logbuf) (since : BitVec 64) : Option Json :=
  (this.since since).map fun l => .array (l.map LogbufEntry.json)

/-! ### What should be reported -/

/-- The entries of a sequence of records: the first one has id 0. -/
def numbered (rs : List LogRecord) : List LogbufEntry := rs.mapIdx fun id r => .store id r

/-- Whether the entry goes to the ring for warnings. -/
def isPriority (e : LogbufEntry) : Bool := e.level ≤ logWarning

/-- The last elements of a list. -/
def last {α : Type} (n : ℕ) (l : List α) : List α := l.drop (l.length - n)

/-- **The entries that are still held**, with an id larger than `since`, each one once and the
oldest first. -/
def Reported (rs : List LogRecord) (since : ℤ) (l : List LogbufEntry) : Prop :=
  (l.Pairwise fun a b => a.id < b.id) ∧
    ∀ e, e ∈ l ↔ since < e.id ∧
      (e ∈ last capacity (numbered rs) ∨
        e ∈ last priorityCapacity ((numbered rs).filter isPriority))

/-- A poll after these records reports what it should. -/
def PolledExactly (rs : List LogRecord) (since : BitVec 64) : Prop :=
  ∃ this l, rs.foldlM add init = some this ∧
    this.jsonSince since = some (.array (l.map LogbufEntry.json)) ∧ Reported rs since.toInt l

/-! ### Filling the rings -/

theorem numbered_concat (rs : List LogRecord) (r : LogRecord) :
    numbered (rs ++ [r]) = numbered rs ++ [.store rs.length r] := List.mapIdx_concat

theorem length_numbered (rs : List LogRecord) : (numbered rs).length = rs.length :=
  List.length_mapIdx

/-- What the rings hold of the records. -/
structure Filled (this : Logbuf) (rs : List LogRecord) : Prop where
  general : Ring.Holds capacity .zero this.entries (numbered rs)
  priority : Ring.Holds priorityCapacity .zero this.priorityEntries
    ((numbered rs).filter isPriority)
  nextId : this.nextId = rs.length
  priorityNextId : this.priorityNextId = ((numbered rs).filter isPriority).length

theorem filled_init : Filled init [] where
  general := Ring.holds_replicate capacity LogbufEntry.zero
  priority := Ring.holds_replicate priorityCapacity LogbufEntry.zero
  nextId := rfl
  priorityNextId := rfl

variable {this : Logbuf} {rs : List LogRecord}

/-- The next entry is written to a slot of its ring. -/
theorem setSlot_tmod {slots xs : List LogbufEntry} {c : ℕ} (h : Ring.Holds c .zero slots xs)
    (hc : 0 < c) (e : LogbufEntry) :
    setSlot slots ((xs.length : ℤ).tmod c) e = some (slots.set (xs.length % c) e) := by
  have hmod : (xs.length : ℤ).tmod c = (xs.length % c : ℕ) := (Int.ofNat_tmod ..).symm
  have hlt := Nat.mod_lt xs.length hc
  rw [hmod, setSlot, if_pos ⟨Int.natCast_nonneg _, by rw [h.length_eq]; omega⟩, Int.toNat_natCast]

/-- **One more record.** -/
theorem Filled.add (h : this.Filled rs) (r : LogRecord) (hlen : rs.length < 2 ^ 63 - 1) :
    ∃ that, this.add r = some that ∧ that.Filled (rs ++ [r]) := by
  have hcapacity : 0 < capacity := by decide
  have hpriority : 0 < priorityCapacity := by decide
  have hprefix : ((numbered rs).filter isPriority).length ≤ rs.length := by
    rw [← length_numbered rs]
    exact List.length_filter_le ..
  have hid : succInt64 this.nextId = some ((rs ++ [r]).length : ℤ) := by
    rw [succInt64, h.nextId, if_pos (by omega), List.length_append]
    rfl
  have hpid : succInt64 ((numbered rs).filter isPriority).length =
      some (((numbered rs).filter isPriority).length + 1 : ℤ) := by
    rw [succInt64, if_pos (by omega)]
  have hgeneral := h.general.write hcapacity (.store rs.length r)
  have hset := setSlot_tmod h.general hcapacity (.store rs.length r)
  have hpset := setSlot_tmod h.priority hpriority (.store rs.length r)
  rw [length_numbered] at hset hgeneral
  rw [← numbered_concat] at hgeneral
  rw [Logbuf.add, hid, h.nextId, Option.bind_eq_bind, Option.bind_some, hset, Option.bind_eq_bind,
    Option.bind_some]
  have hfilter : (numbered (rs ++ [r])).filter isPriority =
      (numbered rs).filter isPriority ++
        if r.level ≤ logWarning then [.store rs.length r] else [] := by
    rw [numbered_concat, List.filter_append, List.filter_singleton]
    by_cases hlevel : r.level ≤ logWarning
    · rw [if_pos hlevel]
      have hp : isPriority (.store rs.length r) = true := decide_eq_true hlevel
      rw [hp]
      rfl
    · rw [if_neg hlevel]
      have hp : isPriority (.store rs.length r) = false := decide_eq_false hlevel
      rw [hp]
      rfl
  by_cases hlevel : r.level ≤ logWarning
  · rw [if_pos hlevel] at hfilter
    simp only [if_pos hlevel, hpid, h.priorityNextId, hpset, Option.bind_some]
    refine ⟨_, rfl, hgeneral, ?_, rfl, ?_⟩
    · rw [hfilter]
      exact h.priority.write hpriority _
    · simp only [hfilter, List.length_append, List.length_singleton]
      rfl
  · rw [if_neg hlevel, List.append_nil] at hfilter
    rw [if_neg hlevel]
    refine ⟨_, rfl, hgeneral, ?_, rfl, ?_⟩
    · rw [hfilter]
      exact h.priority
    · rw [hfilter]
      exact h.priorityNextId

/-- **The last id is not given twice**: after it, a record is not added. -/
theorem Filled.add_eq_none (h : this.Filled rs) (r : LogRecord) (hlen : 2 ^ 63 - 1 ≤ rs.length) :
    this.add r = none := by
  have hover : succInt64 this.nextId = none := by
    rw [succInt64, h.nextId]
    exact if_neg (by omega)
  rw [Logbuf.add, hover]
  rfl

/-- The log after these records. -/
theorem exists_foldlM_add {rs : List LogRecord} (hlen : rs.length < 2 ^ 63) :
    ∃ this, rs.foldlM Logbuf.add init = some this ∧ this.Filled rs := by
  induction rs using List.reverseRecOn with
  | nil => exact ⟨init, rfl, filled_init⟩
  | append_singleton rs r ih =>
    rw [List.length_append, List.length_singleton] at hlen
    obtain ⟨this, hthis, hfilled⟩ := ih (by omega)
    obtain ⟨that, hthat, hfilled'⟩ := hfilled.add r (by omega)
    refine ⟨that, ?_, hfilled'⟩
    rw [List.foldlM_append, hthis]
    exact (congrArg (Option.bind · some) hthat).trans (Option.bind_some ..)

theorem foldlM_add_eq_none {rs : List LogRecord} (hlen : 2 ^ 63 ≤ rs.length) :
    rs.foldlM Logbuf.add init = none := by
  have htake : (rs.take (2 ^ 63 - 1)).length = 2 ^ 63 - 1 := by
    rw [List.length_take]
    omega
  have hlt : (rs.take (2 ^ 63 - 1)).length < 2 ^ 63 := by omega
  obtain ⟨this, hthis, hfilled⟩ := exists_foldlM_add hlt
  obtain ⟨r, rest, hdrop⟩ := List.exists_cons_of_ne_nil (l := rs.drop (2 ^ 63 - 1))
    (by rw [← List.length_pos_iff, List.length_drop]; omega)
  rw [← List.take_append_drop (2 ^ 63 - 1) rs, List.foldlM_append, hthis, hdrop]
  exact congrArg (Option.bind · fun this => rest.foldlM Logbuf.add this)
    (hfilled.add_eq_none r (by rw [htake]))

/-! ### Polling -/

/-- The entry of an id. -/
theorem mem_numbered {e : LogbufEntry} :
    e ∈ numbered rs ↔ ∃ (j : ℕ) (h : j < rs.length), e = .store j rs[j] := by
  rw [numbered, List.mem_iff_getElem]
  simp only [List.getElem_mapIdx, List.length_mapIdx]
  exact ⟨fun ⟨j, h, he⟩ => ⟨j, h, he.symm⟩, fun ⟨j, h, he⟩ => ⟨j, h, he.symm⟩⟩

theorem pairwise_numbered (rs : List LogRecord) :
    (numbered rs).Pairwise fun a b => a.id < b.id := by
  rw [List.pairwise_iff_getElem]
  intro i j hi hj hij
  simp only [numbered, List.getElem_mapIdx]
  exact Int.ofNat_lt.mpr hij

/-- The entries from an id on. -/
theorem mem_drop_numbered {k : ℕ} {e : LogbufEntry} :
    e ∈ (numbered rs).drop k ↔ e ∈ numbered rs ∧ (k : ℤ) ≤ e.id := by
  rw [List.mem_drop_iff_getElem, mem_numbered]
  simp only [numbered, List.getElem_mapIdx, List.length_mapIdx]
  constructor
  · rintro ⟨i, hi, rfl⟩
    exact ⟨⟨k + i, Nat.add_comm i k ▸ hi, rfl⟩, Int.ofNat_le.mpr (Nat.le_add_right k i)⟩
  · rintro ⟨⟨j, hj, rfl⟩, hle⟩
    obtain ⟨i, rfl⟩ := Nat.exists_eq_add_of_le (Int.ofNat_le.mp hle : k ≤ j)
    exact ⟨i, Nat.add_comm k i ▸ hj, rfl⟩

/-- The entries of the ring for warnings between two ids, in order. -/
theorem Filled.mergeSort_recovered (h : this.Filled rs) (p : LogbufEntry → Bool)
    (hp : ∀ e, p e = true → e.message.isSome) :
    (this.priorityEntries.filter p).mergeSort (fun a b => LogbufEntry.cmp a b ≤ 0) =
      (last priorityCapacity ((numbered rs).filter isPriority)).filter p := by
  have hzeros (n : ℕ) : (List.replicate n LogbufEntry.zero).filter p = [] := by
    refine List.filter_eq_nil_iff.mpr fun e he hpe => ?_
    rw [List.eq_of_mem_replicate he] at hpe
    exact absurd (hp _ hpe) Bool.false_ne_true
  have hperm := h.priority.perm.filter p
  rw [List.filter_append, hzeros, List.append_nil] at hperm
  have hsorted : ((last priorityCapacity ((numbered rs).filter isPriority)).filter p).Pairwise
      fun a b => a.id < b.id :=
    (((pairwise_numbered rs).filter isPriority).drop).filter p
  have hcmp (a b : LogbufEntry) : decide (LogbufEntry.cmp a b ≤ 0) = true ↔ a.id ≤ b.id := by
    rw [decide_eq_true_iff, LogbufEntry.cmp]
    split <;> split <;> omega
  refine @List.Perm.eq_of_pairwise _ (fun a b => a.id ≤ b.id) _ _ ?_ ?_ ?_
    ((List.mergeSort_perm _ _).trans hperm)
  · intro a b ha hb hle hle'
    have hmem {e : LogbufEntry}
        (he : e ∈ (last priorityCapacity ((numbered rs).filter isPriority)).filter p) :
        e ∈ numbered rs :=
      List.mem_of_mem_filter (List.mem_of_mem_drop (List.mem_of_mem_filter he))
    obtain ⟨i, hi, rfl⟩ := mem_numbered.mp
      (hmem (hperm.subset ((List.mergeSort_perm _ _).subset ha)))
    obtain ⟨j, hj, rfl⟩ := mem_numbered.mp (hmem hb)
    obtain rfl : i = j := Int.ofNat_inj.mp (le_antisymm hle hle')
    rfl
  · refine (List.pairwise_mergeSort ?_ ?_ _).imp fun h => (hcmp _ _).mp h
    · intro a b c hab hbc
      rw [hcmp] at *
      exact hab.trans hbc
    · intro a b
      rw [Bool.or_eq_true, hcmp, hcmp]
      exact le_total a.id b.id
  · exact hsorted.imp fun hlt => hlt.le

/-- The loop over the general ring takes all that it has from an id on. -/
theorem Filled.scan (h : this.Filled rs) {rounds start : ℕ} (hend : start + rounds = rs.length)
    (hstart : rs.length ≤ start + capacity) :
    Logbuf.scan this.entries rounds start = some ((numbered rs).drop start) := by
  induction rounds generalizing start with
  | zero =>
    rw [Logbuf.scan, List.drop_of_length_le (by rw [length_numbered]; omega)]
  | succ rounds ih =>
    have hlt : start < rs.length := by omega
    have hlt' : start < (numbered rs).length := by rwa [length_numbered]
    have hslot : getSlot this.entries ((start : ℤ).tmod capacity) = some (numbered rs)[start] := by
      have hmod : (start : ℤ).tmod capacity = (start % capacity : ℕ) := (Int.ofNat_tmod ..).symm
      rw [hmod, getSlot, if_pos (Int.natCast_nonneg _), Int.toNat_natCast,
        h.general.written start hlt' (by rwa [length_numbered]), List.getElem?_eq_getElem hlt']
    have hid : (numbered rs)[start].id = start := by
      simp only [numbered, List.getElem_mapIdx]
      rfl
    have hnext : (start : ℤ) + 1 = (start + 1 : ℕ) := by omega
    rw [Logbuf.scan, hslot, hnext, ih (by omega) (by omega)]
    simp only [Option.bind_eq_bind, Option.bind_some]
    rw [if_neg (not_not.mpr hid), List.drop_eq_getElem_cons hlt']
    rfl

/-- **The id from which the general ring is read** is the least one that it has after `since`. -/
theorem Filled.exists_start (h : this.Filled rs) {since : ℤ} (hsince : since < 2 ^ 63 - 1) :
    ∃ start : ℕ, this.start since = some (start : ℤ) ∧ rs.length ≤ start + capacity ∧
      since < start ∧
      ∀ id : ℤ, 0 ≤ id → rs.length ≤ id + capacity → since < id → start ≤ id := by
  rw [Logbuf.start, h.nextId]
  obtain ⟨first, hfirst, hle, hmin⟩ : ∃ first : ℕ,
      (if (rs.length : ℤ) > capacity then (rs.length : ℤ) - capacity else 0) = first ∧
      rs.length ≤ first + capacity ∧
      ∀ id : ℤ, 0 ≤ id → rs.length ≤ id + capacity → first ≤ id := by
    by_cases hmany : (rs.length : ℤ) > capacity
    · refine ⟨rs.length - capacity, ?_, by omega, fun id _ h => by omega⟩
      rw [if_pos hmany]
      omega
    · exact ⟨0, if_neg hmany, by omega, fun id h _ => h⟩
  rw [hfirst]
  by_cases hafter : (first : ℤ) ≤ since
  · refine ⟨(since + 1).toNat, ?_, by omega, by omega, fun id _ _ h => by omega⟩
    rw [if_pos hafter, succInt64, if_pos hsince]
    exact congrArg some (by omega)
  · exact ⟨first, if_neg hafter, hle, by omega, fun id h h' _ => hmin id h h'⟩

/-- **A poll that does not overflow reports what it should.** -/
theorem Filled.exists_since (h : this.Filled rs) {since : BitVec 64}
    (hsince : since.toInt < 2 ^ 63 - 1) :
    ∃ l, this.since since = some l ∧ Reported rs since.toInt l := by
  obtain ⟨start, hstart, hle, hlt, hmin⟩ := h.exists_start hsince
  have hscan : Logbuf.scan this.entries (this.nextId - start).toNat start =
      some ((numbered rs).drop start) := by
    rw [h.nextId]
    by_cases hend : start ≤ rs.length
    · have hrounds : ((rs.length : ℤ) - start).toNat = rs.length - start := by omega
      rw [hrounds]
      exact h.scan (by omega) hle
    · have hrounds : ((rs.length : ℤ) - start).toNat = 0 := by omega
      rw [hrounds, Logbuf.scan, List.drop_of_length_le (by rw [length_numbered]; omega)]
  refine ⟨(last priorityCapacity ((numbered rs).filter isPriority)).filter
    (fun e => e.message.isSome ∧ e.id > since.toInt ∧ e.id < (start : ℤ)) ++
      (numbered rs).drop start, ?_, ?_, fun e => ?_⟩
  · rw [Logbuf.since, hstart, Option.bind_eq_bind, Option.bind_some, hscan, Option.bind_eq_bind,
      Option.bind_some, h.mergeSort_recovered _ fun e he => (of_decide_eq_true he).1]
    rfl
  · refine List.pairwise_append.mpr ⟨?_, (pairwise_numbered rs).drop, fun a ha b hb => ?_⟩
    · exact (((pairwise_numbered rs).filter isPriority).drop).filter _
    · have hp := List.of_mem_filter ha
      rw [decide_eq_true_iff] at hp
      exact hp.2.2.trans_le (mem_drop_numbered.mp hb).2
  · rw [List.mem_append, List.mem_filter, mem_drop_numbered, decide_eq_true_iff]
    constructor
    · rintro (⟨hlast, -, hsince, -⟩ | ⟨hmem, hid⟩)
      · exact ⟨hsince, .inr hlast⟩
      · refine ⟨by omega, .inl (mem_drop_numbered.mpr ⟨hmem, ?_⟩)⟩
        rw [length_numbered]
        omega
    · rintro ⟨hsince, hheld⟩
      have hmem : e ∈ numbered rs := by
        rcases hheld with hheld | hheld
        · exact List.mem_of_mem_drop hheld
        · exact List.mem_of_mem_filter (List.mem_of_mem_drop hheld)
      rcases hheld with hheld | hheld
      · have hid := (mem_drop_numbered.mp hheld).2
        obtain ⟨j, hj, rfl⟩ := mem_numbered.mp hmem
        rw [length_numbered] at hid
        exact .inr ⟨hmem, hmin _ (Int.natCast_nonneg j) (by omega) hsince⟩
      · by_cases hid : e.id < start
        · obtain ⟨j, hj, rfl⟩ := mem_numbered.mp hmem
          exact .inl ⟨hheld, rfl, hsince, hid⟩
        · exact .inr ⟨hmem, Int.not_lt.mp hid⟩

/-- The largest id overflows. -/
theorem Filled.since_eq_none (h : this.Filled rs) (hlen : rs.length < 2 ^ 63) {since : BitVec 64}
    (hsince : 2 ^ 63 - 1 ≤ since.toInt) : this.since since = none := by
  have hstart : (if this.nextId > capacity then this.nextId - capacity else 0) ≤ since.toInt := by
    rw [h.nextId]
    split <;> omega
  have hover : succInt64 since.toInt = none := if_neg (by omega)
  rw [Logbuf.since, Logbuf.start]
  dsimp only
  rw [if_pos hstart, hover]
  rfl

/-- **Polls are exact unless they ask for what is after the largest id.** -/
theorem polledExactly_iff (rs : List LogRecord) (since : BitVec 64) :
    PolledExactly rs since ↔ rs.length < 2 ^ 63 ∧ since.toInt ≠ 2 ^ 63 - 1 := by
  have hmax : since.toInt < 2 ^ 63 := since.toInt_lt
  constructor
  · rintro ⟨this, l, hthis, hjson, -⟩
    have hlen : rs.length < 2 ^ 63 := by
      by_contra hlen
      rw [foldlM_add_eq_none (by omega)] at hthis
      contradiction
    refine ⟨hlen, fun hsince => ?_⟩
    obtain ⟨that, hthat, hfilled⟩ := exists_foldlM_add hlen
    obtain rfl := Option.some.inj (hthis.symm.trans hthat)
    rw [jsonSince, hfilled.since_eq_none hlen (by omega)] at hjson
    contradiction
  · rintro ⟨hlen, hsince⟩
    obtain ⟨this, hthis, hfilled⟩ := exists_foldlM_add hlen
    have hbound : since.toInt < 2 ^ 63 - 1 := by omega
    obtain ⟨l, hl, hreported⟩ := hfilled.exists_since hbound
    exact ⟨this, l, hthis, by rw [jsonSince, hl, Option.map_some], hreported⟩

/-- A poll of the empty log for what is after the largest id. -/
theorem not_polledExactly_max : ¬ PolledExactly [] (BitVec.intMax 64) := by
  rintro ⟨this, l, hthis, hjson, -⟩
  obtain rfl := Option.some.inj hthis
  have hlen : ([] : List LogRecord).length < 2 ^ 63 := by decide
  rw [jsonSince, filled_init.since_eq_none hlen (by decide)] at hjson
  contradiction

end Logbuf

end ChilopodCaster
