import ChilopodCaster.SourcetableStack
import Mathlib.Data.Prod.Lex
import Mathlib.Data.Fintype.Basic
import Mathlib.Tactic.FinCases

/-!
# Replication of the sourcetables

The nodes of a cluster send each other the sourcetables they fetch, and each node hands those it
receives to `sourcetable_update_execute`, one after the other. A table takes the place of an earlier
one of the same host and port, so the stack is a list of the latest tables (`Latest.put`).

## Main definitions

* `Stack.received` — the tables in some messages
* `Stack.deliver` — messages received one after the other

## Main results

* `Stack.replace_eq_put` — a table received is a value put in a list of latest values
* `Stack.holds_deliver` — what the stack holds after some messages
* `Stack.deliver_converges` — the order of the messages and their repetitions do not matter
-/

namespace ChilopodCaster

namespace Stack

open Sourcetable

variable {F : Type}

/-- The host and port of a table. -/
def hostPort (s : Sourcetable F) : Option CString × BitVec 16 := (s.caster, s.port)

/-- The time of a table, in the order of `timercmp`. -/
def fetchDate (s : Sourcetable F) : ℤ ×ₗ ℤ := toLex (s.fetchTime.sec, s.fetchTime.usec)

theorem fetchDate_lt_iff {s t : Sourcetable F} :
    fetchDate s < fetchDate t ↔ s.fetchTime.lt t.fetchTime := by
  rw [fetchDate, fetchDate, Prod.Lex.toLex_lt_toLex, Timeval.lt]
  split
  · next heq => simp [heq]
  · next hne => simp [hne]

theorem fetchDate_eq_iff {s t : Sourcetable F} :
    fetchDate s = fetchDate t ↔ s.fetchTime = t.fetchTime := by
  rw [fetchDate, fetchDate, EmbeddingLike.apply_eq_iff_eq, Prod.mk.injEq]
  constructor
  · intro h
    cases hs : s.fetchTime
    cases ht : t.fetchTime
    simp_all
  · intro h
    rw [h]
    exact ⟨rfl, rfl⟩

theorem replaced_iff_hostPort {s t : Sourcetable F} (hs : s.caster.isSome) :
    Replaced s.caster (s.port.setWidth 32) false t ↔ hostPort t = hostPort s := by
  rw [replaced_host_iff, hostPort, hostPort, Prod.mk.injEq]
  constructor
  · rintro ⟨-, hcaster, hport⟩
    refine ⟨hcaster, ?_⟩
    have hnat := congrArg BitVec.toNat hport
    rw [BitVec.toNat_setWidth_of_le (by decide), BitVec.toNat_setWidth_of_le (by decide)] at hnat
    exact BitVec.eq_of_toNat_eq hnat
  · rintro ⟨hcaster, hport⟩
    exact ⟨hs, hcaster, by rw [hport]⟩

/-- A table received is a value put in a list of latest values. -/
theorem replace_eq_put (stack : Stack F) {s : Sourcetable F} (hs : s.caster.isSome) :
    replace stack s.caster (s.port.setWidth 32) (some s) true false =
      Latest.put hostPort fetchDate Sourcetable.priority stack s := by
  have hpred : (fun t : Sourcetable F =>
      decide (Replaced s.caster (s.port.setWidth 32) false t)) =
        fun t => decide (hostPort t = hostPort s) := by
    funext t
    rw [decide_eq_decide]
    exact replaced_iff_hostPort hs
  unfold replace
  rw [Latest.put, hpred]
  cases stack.find? fun t => decide (hostPort t = hostPort s) with
  | none => rfl
  | some r =>
    simp only [Bool.not_true, Bool.false_or, fetchDate_lt_iff]
    rfl

section Deliver

variable (scanFloat : CString → Option F) (text : Json → CString)
  (isoDate : CString → Option Timeval)

/-- The tables in some messages, as `sourcetable_from_json` reads them. -/
def received (js : List Json) : Set (Sourcetable F) :=
  {s | ∃ j ∈ js, fromJson scanFloat text isoDate j = some (some s)}

/-- Messages are handed to `sourcetable_update_execute` one after the other. -/
def deliver (stack : Stack F) (js : List Json) : Option (Stack F) :=
  js.foldlM (fun stack j => (stack.updateExecute scanFloat text isoDate j).map Prod.snd) stack

end Deliver

variable {scanFloat : CString → Option F} {text : Json → CString}
  {isoDate : CString → Option Timeval}

theorem received_congr {js js' : List Json} (h : ∀ j, j ∈ js ↔ j ∈ js') :
    received scanFloat text isoDate js = received scanFloat text isoDate js' := by
  ext s
  simp only [received, h]

/-- One message adds its table to those received. -/
theorem exists_updateExecute {stack : Stack F} {received : Set (Sourcetable F)} {j : Json}
    (hj : (fromJson scanFloat text isoDate j).isSome)
    (h : Latest.Holds hostPort fetchDate Sourcetable.priority received stack)
    (hd : Latest.Distinct hostPort fetchDate Sourcetable.priority
      (received ∪ Stack.received scanFloat text isoDate [j])) :
    ∃ stack', stack.updateExecute scanFloat text isoDate j = some (200, stack') ∧
      Latest.Holds hostPort fetchDate Sourcetable.priority
        (received ∪ Stack.received scanFloat text isoDate [j]) stack' := by
  obtain ⟨table, htable⟩ := Option.isSome_iff_exists.mp hj
  cases table with
  | none =>
    have hnone : Stack.received scanFloat text isoDate [j] = ∅ := by
      simp [Stack.received, htable]
    rw [hnone, Set.union_empty]
    exact ⟨stack, by rw [updateExecute, htable]; rfl, h⟩
  | some s =>
    have hone : Stack.received scanFloat text isoDate [j] = {s} := by
      ext t
      simp [Stack.received, htable, eq_comm]
    rw [hone, Set.union_singleton] at hd ⊢
    refine ⟨_, by rw [updateExecute, htable]; rfl, ?_⟩
    rw [replace_eq_put stack (fromJson_spec htable).2.1]
    exact h.put hd

/-- What the stack holds after some messages. -/
theorem holds_deliver {js : List Json} {stack : Stack F} {before : Set (Sourcetable F)}
    (hparse : ∀ j ∈ js, (fromJson scanFloat text isoDate j).isSome)
    (h : Latest.Holds hostPort fetchDate Sourcetable.priority before stack)
    (hd : Latest.Distinct hostPort fetchDate Sourcetable.priority
      (before ∪ received scanFloat text isoDate js)) :
    ∃ stack', deliver scanFloat text isoDate stack js = some stack' ∧
      Latest.Holds hostPort fetchDate Sourcetable.priority
        (before ∪ received scanFloat text isoDate js) stack' := by
  induction js generalizing stack before with
  | nil =>
    have hnone : received scanFloat text isoDate [] = ∅ := by simp [received]
    rw [hnone, Set.union_empty]
    exact ⟨stack, rfl, h⟩
  | cons j js ih =>
    have hsplit : before ∪ received scanFloat text isoDate (j :: js) =
        (before ∪ received scanFloat text isoDate [j]) ∪ received scanFloat text isoDate js := by
      ext s
      simp [received, or_and_right, exists_or, or_assoc]
    rw [hsplit] at hd ⊢
    obtain ⟨stack₁, hstep, h₁⟩ := exists_updateExecute (hparse j List.mem_cons_self) h
      (hd.mono Set.subset_union_left)
    obtain ⟨stack', hrun, h'⟩ := ih (fun j hj => hparse j (List.mem_cons_of_mem _ hj)) h₁ hd
    refine ⟨stack', ?_, h'⟩
    rw [deliver, List.foldlM_cons, hstep]
    exact hrun

/-- **The order of the messages and their repetitions do not matter.** Whatever the order in which
the same tables are received, the stack is the same: for each host and port the table fetched last,
by decreasing priority. -/
theorem deliver_converges {js js' : List Json} (hsame : ∀ j, j ∈ js ↔ j ∈ js')
    (hparse : ∀ j ∈ js, (fromJson scanFloat text isoDate j).isSome)
    (hdates : ∀ s ∈ received scanFloat text isoDate js, ∀ t ∈ received scanFloat text isoDate js,
      s.caster = t.caster → s.port = t.port → s ≠ t → s.fetchTime ≠ t.fetchTime)
    (hpriorities : ∀ s ∈ received scanFloat text isoDate js,
      ∀ t ∈ received scanFloat text isoDate js,
        ¬ (s.caster = t.caster ∧ s.port = t.port) → s.priority ≠ t.priority) :
    ∃ stack : Stack F, deliver scanFloat text isoDate [] js = some stack ∧
      deliver scanFloat text isoDate [] js' = some stack ∧
      stack.Pairwise (fun s t => s.priority > t.priority) ∧
      ∀ s, s ∈ stack ↔ s ∈ received scanFloat text isoDate js ∧
        ∀ t ∈ received scanFloat text isoDate js, t.caster = s.caster → t.port = s.port → t ≠ s →
          t.fetchTime.lt s.fetchTime := by
  have hd : Latest.Distinct hostPort fetchDate Sourcetable.priority
      (∅ ∪ received scanFloat text isoDate js) := by
    rw [Set.empty_union]
    constructor
    · intro s hs t ht hkey hdate
      obtain ⟨hcaster, hport⟩ := Prod.mk.inj hkey
      by_contra hne
      exact hdates s hs t ht hcaster hport hne (fetchDate_eq_iff.mp hdate)
    · intro s hs t ht hrank
      by_contra hne
      exact hpriorities s hs t ht (fun h => hne (Prod.mk.injEq .. ▸ h)) hrank
  have hparse' (j : Json) (hj : j ∈ js') : (fromJson scanFloat text isoDate j).isSome :=
    hparse j ((hsame j).mpr hj)
  obtain ⟨stack, hrun, h⟩ := holds_deliver hparse Latest.holds_nil hd
  rw [received_congr hsame] at hd
  obtain ⟨stack', hrun', h'⟩ := holds_deliver hparse' Latest.holds_nil hd
  rw [← received_congr hsame] at h'
  rw [← h.eq h'] at hrun'
  refine ⟨stack, hrun, hrun', h.sorted, ?_⟩
  intro s
  rw [h.mem_iff, Set.empty_union, Latest.IsLatest]
  simp only [hostPort, Prod.mk.injEq, and_imp, fetchDate_lt_iff]

/-- A message with a table that has no line. -/
def emptyTableJson (host : String) (priority : ℤ) (date : String) : Json :=
  .object [(cstr "host", .string (cstr host)), (cstr "port", .int 2101),
    (cstr "pullable", .boolean true), (cstr "priority", .int priority),
    (cstr "fetch_time", .string (cstr date)), (cstr "mountpoints", .object [])]

/-- The first two days of a year. -/
def twoDays (date : CString) : Option Timeval :=
  if date = cstr "2026-01-01T00:00:00Z" then some ⟨1767225600, 0⟩
  else if date = cstr "2026-01-02T00:00:00Z" then some ⟨1767312000, 0⟩
  else none

/-- The table in such a message. -/
def emptyTable (host : String) (priority : ℤ) (day : ℤ) : Sourcetable ℤ :=
  { new (some (cstr host)) 2101 false with
    pullable := true, priority := priority, fetchTime := ⟨1767225600 + 86400 * day, 0⟩ }

/-- Two tables of a host, the later one of lower priority, and one of another host. -/
def twoHosts : Fin 3 → Json
  | 0 => emptyTableJson "a.example" 5 "2026-01-01T00:00:00Z"
  | 1 => emptyTableJson "a.example" 1 "2026-01-02T00:00:00Z"
  | 2 => emptyTableJson "b.example" 3 "2026-01-01T00:00:00Z"

/-- The tables in these messages. -/
def twoHostsTable : Fin 3 → Sourcetable ℤ
  | 0 => emptyTable "a.example" 5 0
  | 1 => emptyTable "a.example" 1 1
  | 2 => emptyTable "b.example" 3 0

theorem fromJson_twoHosts (i : Fin 3) :
    fromJson strtoll (fun _ => []) twoDays (twoHosts i) = some (some (twoHostsTable i)) := by
  fin_cases i <;> rfl

/-- A table is received before and after the later one of its host, or only after it. -/
theorem deliver_converges_twoHosts :
    ∃ stack : Stack ℤ,
      deliver strtoll (fun _ => []) twoDays [] ([0, 2, 1, 0].map twoHosts) = some stack ∧
      deliver strtoll (fun _ => []) twoDays [] ([1, 0, 2].map twoHosts) = some stack ∧
      twoHostsTable 1 ∈ stack := by
  have hmem (i : Fin 3) : i ∈ [0, 2, 1, 0] ∧ i ∈ [1, 0, 2] := by
    fin_cases i <;> decide
  have hsame (j : Json) : j ∈ [0, 2, 1, 0].map twoHosts ↔ j ∈ [1, 0, 2].map twoHosts := by
    simp only [List.mem_map, hmem, true_and]
  have hreceived (s : Sourcetable ℤ) :
      s ∈ received strtoll (fun _ => []) twoDays ([0, 2, 1, 0].map twoHosts) ↔
        ∃ i, twoHostsTable i = s := by
    constructor
    · rintro ⟨j, hj, hs⟩
      obtain ⟨i, -, rfl⟩ := List.mem_map.mp hj
      rw [fromJson_twoHosts] at hs
      exact ⟨i, Option.some.inj (Option.some.inj hs)⟩
    · rintro ⟨i, rfl⟩
      exact ⟨twoHosts i, List.mem_map_of_mem (hmem i).1, fromJson_twoHosts i⟩
  have hdistinct (i k : Fin 3) :
      ((twoHostsTable i).caster = (twoHostsTable k).caster → i ≠ k →
        (twoHostsTable i).fetchTime ≠ (twoHostsTable k).fetchTime) ∧
      (i ≠ k → (twoHostsTable i).priority ≠ (twoHostsTable k).priority) := by
    fin_cases i <;> fin_cases k <;> decide
  have hparse (j : Json) (hj : j ∈ [0, 2, 1, 0].map twoHosts) :
      (fromJson strtoll (fun _ => []) twoDays j).isSome := by
    obtain ⟨i, -, rfl⟩ := List.mem_map.mp hj
    rw [fromJson_twoHosts]
    rfl
  obtain ⟨stack, hrun, hrun', -, hstack⟩ := deliver_converges hsame hparse
    (by
      rintro s hs t ht hcaster - hne
      obtain ⟨i, rfl⟩ := (hreceived s).mp hs
      obtain ⟨k, rfl⟩ := (hreceived t).mp ht
      exact (hdistinct i k).1 hcaster fun heq => hne (congrArg twoHostsTable heq))
    (by
      intro s hs t ht hne
      obtain ⟨i, rfl⟩ := (hreceived s).mp hs
      obtain ⟨k, rfl⟩ := (hreceived t).mp ht
      refine (hdistinct i k).2 ?_
      rintro rfl
      exact hne ⟨rfl, rfl⟩)
  refine ⟨stack, hrun, hrun', (hstack _).mpr ⟨(hreceived _).mpr ⟨1, rfl⟩, ?_⟩⟩
  rintro t ht hcaster - hne
  obtain ⟨i, rfl⟩ := (hreceived t).mp ht
  fin_cases i
  · decide
  · exact absurd rfl hne
  · exact absurd hcaster (by decide)

end Stack

end ChilopodCaster
