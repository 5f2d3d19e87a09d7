import ChilopodCaster.Hash
import ChilopodCaster.Json
import ChilopodCaster.Lib.Fold
import ChilopodCaster.Sourceline

/-!
# Sourcetables

A sourcetable, in `sourcetable.c`, is a hash table of source lines by mountpoint name, with the
header lines and where it comes from. It is built line by line: read from a file, fetched from
another caster, or received from another node as JSON.

The number of virtual lines is counted apart, as lines are added. That the count is right is what
makes `sourcetable_find_pos` safe: it allocates one slot for each line that is not virtual.

## Main definitions

* `Sourcetable` — `struct sourcetable`
* `Sourcetable.addDirect`, `Sourcetable.addUnlocked` — the two ways of adding a line
* `Sourcetable.read`, `Sourcetable.fromJson`, `Sourcetable.fetch` — tables from a file, from JSON
  and from a fetcher
* `Sourcetable.Built` — the tables built by the operations of the source
* `Sourcetable.findPos` — the table of distances

## Main results

* `Sourcetable.Built.counted` — the virtual lines of every table the program builds are counted
* `Sourcetable.findPos_fills` — on a counted table, every slot is filled and none is missing
-/

namespace ChilopodCaster

/-- `struct timeval`. -/
structure Timeval where
  sec : ℤ
  usec : ℤ
  deriving DecidableEq, Repr

/-- `timercmp(a, b, <)`. -/
def Timeval.lt (a b : Timeval) : Bool := if a.sec = b.sec then a.usec < b.usec else a.sec < b.sec

/-- `struct sourcetable`, less its lock and reference count, and less the filter of the fetcher,
which plays no part here. -/
structure Sourcetable (F : Type) where
  /-- the caster the table is from; null for an aggregated table -/
  caster : Option CString
  port : BitVec 16
  tls : Bool
  header : CString
  keyVal : HashTable (Sourceline F)
  pullable : Bool
  /-- the field `local` -/
  isLocal : Bool
  filename : Option CString
  priority : ℤ
  nvirtual : ℕ
  fetchTime : Timeval
  /-- a line is filed under its own name -/
  keyed : ∀ key line, keyVal.get key = some line → line.key = key

namespace Sourcetable

variable {F : Type}

/-! ### Building a table -/

/-- `sourcetable_new`. -/
def new (host : Option CString) (port : BitVec 16) (tls : Bool) : Sourcetable F where
  caster := host
  port := port
  tls := tls
  header := []
  keyVal := HashTable.new 509 HashTable.zero_lt_509
  pullable := false
  isLocal := false
  filename := none
  priority := 0
  nvirtual := 0
  fetchTime := ⟨0, 0⟩
  keyed := fun key line h => by rw [HashTable.get_new] at h; contradiction

/-- `_sourcetable_add_direct`; `none` stands for the error of `hash_table_add`. -/
def addDirect (this : Sourcetable F) (s : Sourceline F) : Option (Sourcetable F) :=
  match h : this.keyVal.add s.key s with
  | none => none
  | some keyVal => some { this with
      keyVal := keyVal
      nvirtual := if s.IsVirtual then this.nvirtual + 1 else this.nvirtual
      keyed := fun key line hget => by
        rw [HashTable.get_add h] at hget
        split at hget
        · next hkey => rw [← Option.some.inj hget, hkey]
        · exact this.keyed key line hget }

/-- `_sourcetable_add_unlocked`: a `STR` line is parsed and added, any other is appended to the
header. -/
def addUnlocked (scanFloat : CString → Option F) (this : Sourcetable F) (entry : CString)
    (onDemand : Bool) : Option (Sourcetable F) :=
  if entry.take 4 = Sourceline.strMark then do
    let n₁ ← Sourceline.newParse scanFloat entry (this.caster.getD []) this.port this.tls onDemand
    this.addDirect n₁
  else some { this with header := this.header ++ entry ++ crlf }

/-- The name of the local table, `LOCAL`. -/
def localName : CString := cstr "LOCAL"

/-- The lines `getline` returns, without the CR and LF at their ends; each one is then a C string.
-/
def fileLines (content : List Byte) : List (List Byte) :=
  (content.splitOn LF).map fun line => (line.reverse.dropWhile (fun c => c = LF ∨ c = CR)).reverse

/-- One line of a file: an empty line or a comment is skipped. -/
def readLine (scanFloat : CString → Option F) (this : Sourcetable F) (line : List Byte) :
    Option (Sourcetable F) :=
  let text := line.takeWhile (· ≠ 0)
  if line = [] then some this
  else if (text.dropWhile isspace).head? = some 0x23 then some this
  else this.addUnlocked scanFloat text false

/-- `sourcetable_read`, on the content of the file. -/
def read (scanFloat : CString → Option F) (filename : CString) (content : List Byte)
    (priority : ℤ) : Option (Sourcetable F) :=
  let this : Sourcetable F := { new (some localName) 0 false with
    isLocal := true
    filename := some filename
    priority := priority }
  (fileLines content).foldlM (readLine scanFloat) this

/-- One entry of the field `mountpoints`. -/
def addMountpoint (scanFloat : CString → Option F) (text : Json → CString) (this : Sourcetable F)
    (entry : CString × Json) : Option (Sourcetable F) := do
  let str ← (entry.2.objectGet (cstr "str")).getString text
  this.addUnlocked scanFloat str this.pullable

/-- `sourcetable_from_json`. The inner option is the pointer returned; the outer one is `none` where
the source dereferences a null pointer, when `mountpoints` is not an object. `isoDate` is
`timeval_from_iso_date`, which leaves the time alone when it fails. -/
def fromJson (scanFloat : CString → Option F) (text : Json → CString)
    (isoDate : CString → Option Timeval) (j : Json) : Option (Option (Sourcetable F)) :=
  let jhost := j.objectGet (cstr "host")
  let jport := j.objectGet (cstr "port")
  let jtls := j.objectGet (cstr "tls")
  let jpull := j.objectGet (cstr "pullable")
  let jprio := j.objectGet (cstr "priority")
  let jdate := j.objectGet (cstr "fetch_time")
  let tlist := j.objectGet (cstr "mountpoints")
  if jhost.isNull || jport.isNull || jdate.isNull || jpull.isNull || tlist.isNull then some none
  else
    let this : Sourcetable F :=
      { new (jhost.getString text) (BitVec.ofInt 16 jport.getInt)
          (!jtls.isNull && jtls.getBoolean) with
        pullable := jpull.getBoolean
        priority := if jprio.isNull then 0 else jprio.getInt
        fetchTime := ((jdate.getString text).bind isoDate).getD ⟨0, 0⟩ }
    tlist.iterFields.map fun fields => fields.foldlM (addMountpoint scanFloat text) this

/-- The table a fetcher hands over, in `fetcher_sourcetable.c`: the lines received up to
`ENDSOURCETABLE`, less those its filter drops, are added to a new table, then the time is
recorded. -/
def fetch (scanFloat : CString → Option F) (host : CString) (port : BitVec 16) (tls : Bool)
    (priority : ℤ) (lines : List CString) (now : Timeval) : Option (Sourcetable F) := do
  let this : Sourcetable F := { new (some host) port tls with priority := priority }
  let this ← lines.foldlM (fun this line => this.addUnlocked scanFloat line true) this
  return { this with fetchTime := now, pullable := true }

/-! ### What an addition does -/

variable {scanFloat : CString → Option F} {text : Json → CString}
  {isoDate : CString → Option Timeval} {this that : Sourcetable F}

/-- Two tables with the same origin. -/
def SameOrigin (this that : Sourcetable F) : Prop :=
  that.caster = this.caster ∧ that.port = this.port ∧ that.isLocal = this.isLocal ∧
    that.filename = this.filename

theorem SameOrigin.refl (this : Sourcetable F) : this.SameOrigin this := ⟨rfl, rfl, rfl, rfl⟩

theorem SameOrigin.trans {other : Sourcetable F} (h : this.SameOrigin that)
    (h' : that.SameOrigin other) : this.SameOrigin other :=
  ⟨h'.1.trans h.1, h'.2.1.trans h.2.1, h'.2.2.1.trans h.2.2.1, h'.2.2.2.trans h.2.2.2⟩

/-- What `_sourcetable_add_direct` has done where it succeeds. -/
theorem addDirect_eq_some {s : Sourceline F} (h : this.addDirect s = some that) :
    this.keyVal.add s.key s = some that.keyVal ∧
      that.nvirtual = this.nvirtual + (if s.IsVirtual then 1 else 0) ∧ this.SameOrigin that := by
  rw [addDirect] at h
  split at h
  · contradiction
  · next hadd =>
    obtain rfl := Option.some.inj h
    refine ⟨hadd, ?_, rfl, rfl, rfl, rfl⟩
    dsimp only
    split <;> rfl

/-- What `_sourcetable_add_unlocked` has done where it succeeds. -/
theorem addUnlocked_eq_some {entry : CString} {onDemand : Bool}
    (h : this.addUnlocked scanFloat entry onDemand = some that) :
    (∃ s, this.addDirect s = some that) ∨
      that = { this with header := this.header ++ entry ++ crlf } := by
  rw [addUnlocked] at h
  split at h
  · obtain ⟨s, -, hadd⟩ := Option.bind_eq_some_iff.mp h
    exact .inl ⟨s, hadd⟩
  · exact .inr (Option.some.inj h).symm

theorem exists_addDirect {s : Sourceline F} (h : this.keyVal.get s.key = none) :
    ∃ that, this.addDirect s = some that := by
  obtain ⟨keyVal, hadd⟩ := HashTable.exists_add h s
  rw [addDirect]
  split
  · next hnone => rw [hadd] at hnone; contradiction
  · exact ⟨_, rfl⟩

/-! ### The count of virtual lines -/

/-- The count of virtual lines is right. -/
def Counted (this : Sourcetable F) : Prop :=
  this.nvirtual = this.keyVal.elements.countP (·.2.IsVirtual)

/-- The tables built by the operations of the source: a new table to which lines are added. Its
other fields may be assigned at any time. -/
inductive Built (scanFloat : CString → Option F) : Sourcetable F → Prop
  | new (host : Option CString) (port : BitVec 16) (tls : Bool) :
      Built scanFloat (new host port tls)
  | add {this that : Sourcetable F} {entry : CString} {onDemand : Bool} (h : Built scanFloat this)
      (hadd : this.addUnlocked scanFloat entry onDemand = some that) : Built scanFloat that
  | assign {this that : Sourcetable F} (h : Built scanFloat this) (hkey : that.keyVal = this.keyVal)
      (hvirt : that.nvirtual = this.nvirtual) : Built scanFloat that

theorem counted_new (host : Option CString) (port : BitVec 16) (tls : Bool) :
    (new host port tls : Sourcetable F).Counted := by
  rw [Counted, new, HashTable.elements_new, List.countP_nil]

theorem Counted.addDirect {s : Sourceline F} (hc : this.Counted)
    (h : this.addDirect s = some that) : that.Counted := by
  obtain ⟨hadd, hvirt, -⟩ := addDirect_eq_some h
  rw [Counted, hvirt, (HashTable.elements_add_perm hadd).countP_eq, List.countP_cons, hc]
  simp only [decide_eq_true_eq]

theorem Counted.addUnlocked {entry : CString} {onDemand : Bool} (hc : this.Counted)
    (h : this.addUnlocked scanFloat entry onDemand = some that) : that.Counted := by
  rcases addUnlocked_eq_some h with ⟨s, hadd⟩ | rfl
  · exact hc.addDirect hadd
  · exact hc

/-- **Every table the program builds has its virtual lines counted.** -/
theorem Built.counted (h : Built scanFloat this) : this.Counted := by
  induction h with
  | new host port tls => exact counted_new host port tls
  | add _ hadd ih => exact ih.addUnlocked hadd
  | assign _ hkey hvirt ih => rw [Counted, hkey, hvirt, ih]

/-! ### Where the tables come from -/

theorem sameOrigin_addUnlocked {entry : CString} {onDemand : Bool}
    (h : this.addUnlocked scanFloat entry onDemand = some that) : this.SameOrigin that := by
  rcases addUnlocked_eq_some h with ⟨s, hadd⟩ | rfl
  · exact (addDirect_eq_some hadd).2.2
  · exact ⟨rfl, rfl, rfl, rfl⟩

/-- Lines are added one after the other: the table stays built and keeps its origin. -/
theorem built_foldlM {α : Type} {f : Sourcetable F → α → Option (Sourcetable F)}
    (hf : ∀ t a t', f t a = some t' →
      t' = t ∨ ∃ entry onDemand, t.addUnlocked scanFloat entry onDemand = some t')
    {l : List α} (h : l.foldlM f this = some that) (hb : Built scanFloat this) :
    Built scanFloat that ∧ this.SameOrigin that := by
  refine Fold.preserves (P := fun t => Built scanFloat t ∧ this.SameOrigin t) ?_ l
    ⟨hb, .refl this⟩ h
  rintro t a t' ⟨hbt, hot⟩ hstep
  rcases hf t a t' hstep with rfl | ⟨entry, onDemand, hadd⟩
  · exact ⟨hbt, hot⟩
  · exact ⟨hbt.add hadd, hot.trans (sameOrigin_addUnlocked hadd)⟩

/-- **A table read from a file** is the local one. -/
theorem read_spec {filename : CString} {content : List Byte} {priority : ℤ}
    (h : read scanFloat filename content priority = some this) :
    Built scanFloat this ∧ this.caster = some localName ∧ this.port = 0 ∧ this.isLocal = true ∧
      this.filename = some filename := by
  refine built_foldlM ?_ h (.assign (.new (some localName) 0 false) rfl rfl)
  intro t line t' hstep
  rw [readLine] at hstep
  split at hstep
  · exact .inl (Option.some.inj hstep).symm
  · split at hstep
    · exact .inl (Option.some.inj hstep).symm
    · exact .inr ⟨_, _, hstep⟩

/-- **A table received as JSON** names its host and is not local. -/
theorem fromJson_spec {j : Json} (h : fromJson scanFloat text isoDate j = some (some this)) :
    Built scanFloat this ∧ this.caster.isSome ∧ this.isLocal = false := by
  rw [fromJson] at h
  dsimp only at h
  split at h
  · exact absurd (Option.some.inj h) (by simp)
  · next hnull =>
    obtain ⟨fields, -, hfold⟩ := Option.map_eq_some_iff.mp h
    have hstep (t : Sourcetable F) (entry : CString × Json) (t' : Sourcetable F)
        (h : addMountpoint scanFloat text t entry = some t') :
        t' = t ∨ ∃ str onDemand, t.addUnlocked scanFloat str onDemand = some t' := by
      obtain ⟨str, -, hadd⟩ := Option.bind_eq_some_iff.mp h
      exact .inr ⟨str, _, hadd⟩
    obtain ⟨hb, ho⟩ := built_foldlM hstep hfold (.assign (.new none 0 false) rfl rfl)
    refine ⟨hb, ?_, ho.2.2.1⟩
    rw [ho.1]
    exact Json.isSome_getString text (by simp_all)

/-- **A table a fetcher hands over** bears the host and port it was fetched from. -/
theorem fetch_spec {host : CString} {port : BitVec 16} {tls : Bool} {priority : ℤ}
    {lines : List CString} {now : Timeval}
    (h : fetch scanFloat host port tls priority lines now = some this) :
    Built scanFloat this ∧ this.caster = some host ∧ this.port = port ∧ this.isLocal = false := by
  obtain ⟨t, hfold, ht⟩ := Option.bind_eq_some_iff.mp h
  obtain rfl := Option.some.inj ht
  obtain ⟨hb, ho⟩ := built_foldlM (fun _ _ _ hadd => .inr ⟨_, _, hadd⟩) hfold
    (.assign (.new (some host) port tls) rfl rfl)
  exact ⟨.assign hb rfl rfl, ho.1, ho.2.1, ho.2.2.1⟩

/-! ### The table of distances -/

/-- `struct spos`. -/
structure Spos (F D : Type) where
  dist : D
  pos : Pos F
  mountpoint : CString
  onDemand : Bool

/-- `struct dist_table`. A slot of the array is `none` until it is written, and so is the
position. -/
structure DistTable (F D : Type) where
  distArray : List (Option (Spos F D))
  sizeDistArray : ℕ
  pos : Option (Pos F)
  host : Option CString
  port : BitVec 16

namespace DistTable

variable {D : Type}

/-- `dist_table_new`: a negative size is too large for `malloc`. -/
def new (n : ℤ) (host : Option CString) (port : BitVec 16) : Option (DistTable F D) :=
  if n < 0 then none
  else some ⟨List.replicate n.toNat none, 0, none, host, port⟩

/-- `dist_table_add`; `none` stands for a write past the end of the array. -/
def add (this : DistTable F D) (dist : D) (pos : Pos F) (mountpoint : CString) (onDemand : Bool) :
    Option (DistTable F D) :=
  if this.sizeDistArray < this.distArray.length then
    some { this with
      distArray := this.distArray.set this.sizeDistArray (some ⟨dist, pos, mountpoint, onDemand⟩)
      sizeDistArray := this.sizeDistArray + 1 }
  else none

/-- `_cmp_dist`, as an order: the first slot does not come after the second one. -/
def cmpDist [LT D] [DecidableLT D] (p₁ p₂ : Option (Spos F D)) : Bool :=
  match p₁, p₂ with
  | some p₁, some p₂ => ¬ p₂.dist < p₁.dist
  | _, _ => true

/-- The call of `qsort`, a merge sort, on the slots in use. -/
def sort [LT D] [DecidableLT D] (this : DistTable F D) : DistTable F D :=
  { this with
    distArray := (this.distArray.take this.sizeDistArray).mergeSort cmpDist ++
      this.distArray.drop this.sizeDistArray }

/-- The array is filled exactly: every slot was written. -/
def Full (this : DistTable F D) : Prop :=
  this.sizeDistArray = this.distArray.length ∧ ∀ slot ∈ this.distArray, slot.isSome

end DistTable

/-- `_sourcetable_nentries_unlocked`. -/
def nentries (this : Sourcetable F) (omitVirtual : Bool) : ℤ :=
  this.keyVal.len - (if omitVirtual then this.nvirtual else 0)

variable {D : Type}

/-- The slot for a source line, unless it is virtual. -/
def spos (distance : Pos F → Pos F → D) (pos : Pos F) (e : CString × Sourceline F) :
    Option (Spos F D) :=
  if e.2.IsVirtual then none else some ⟨distance e.2.pos pos, e.2.pos, e.2.key, e.2.onDemand⟩

/-- `sourcetable_find_pos`; `none` stands for a failed allocation or a write out of bounds. -/
def findPos [LT D] [DecidableLT D] (distance : Pos F → Pos F → D) (this : Sourcetable F)
    (pos : Pos F) : Option (DistTable F D) := do
  let d ← DistTable.new (this.nentries true) this.caster this.port
  let d ← this.keyVal.elements.foldlM
    (fun d e => if e.2.IsVirtual then some d
      else d.add (distance e.2.pos pos) e.2.pos e.2.key e.2.onDemand) d
  return { d with pos := some pos }.sort

theorem DistTable.add_next {d : DistTable F D} {done : List (Spos F D)} {k : ℕ}
    (hd : d.distArray = done.map some ++ List.replicate (k + 1) none)
    (hs : d.sizeDistArray = done.length) (p : Spos F D) :
    ∃ d' : DistTable F D, d.add p.dist p.pos p.mountpoint p.onDemand = some d' ∧
      d'.distArray = (done ++ [p]).map some ++ List.replicate k none ∧
      d'.sizeDistArray = (done ++ [p]).length := by
  have hlen : d.sizeDistArray < d.distArray.length := by
    rw [hd, hs, List.length_append, List.length_map, List.length_replicate]
    omega
  refine ⟨_, if_pos hlen, ?_, ?_⟩
  · dsimp only
    rw [hd, hs, List.set_append_right _ _ (by rw [List.length_map]), List.length_map, Nat.sub_self,
      List.replicate_succ, List.set_cons_zero, List.map_append, List.append_assoc]
    rfl
  · rw [List.length_append, hs]
    rfl

/-- The loop of `sourcetable_find_pos`: with one free slot for each line that is not virtual, no
write is out of bounds and no slot is left. -/
theorem exists_foldlM_add (distance : Pos F → Pos F → D) (pos : Pos F)
    (es : List (CString × Sourceline F)) {d : DistTable F D} (done : List (Spos F D))
    (hd : d.distArray = done.map some ++
      List.replicate (es.countP (¬ ·.2.IsVirtual)) none)
    (hs : d.sizeDistArray = done.length) :
    ∃ d' : DistTable F D, es.foldlM (fun d e => if e.2.IsVirtual then some d
        else d.add (distance e.2.pos pos) e.2.pos e.2.key e.2.onDemand) d = some d' ∧
      d'.distArray = (done ++ es.filterMap (spos distance pos)).map some ∧
      d'.sizeDistArray = d'.distArray.length := by
  induction es generalizing d done with
  | nil => exact ⟨d, rfl, by simpa using hd, by simp [hd, hs]⟩
  | cons e es ih =>
    rw [List.foldlM_cons]
    by_cases hv : e.2.IsVirtual
    · have hspos : spos distance pos e = none := if_pos hv
      rw [List.countP_cons_of_neg (by simpa using hv)] at hd
      rw [if_pos hv, List.filterMap_cons_none hspos]
      exact ih done hd hs
    · have hspos : spos distance pos e =
          some ⟨distance e.2.pos pos, e.2.pos, e.2.key, e.2.onDemand⟩ := if_neg hv
      rw [List.countP_cons_of_pos (by simpa using hv)] at hd
      rw [if_neg hv, List.filterMap_cons_some hspos]
      obtain ⟨d₁, hadd, hd₁, hs₁⟩ := DistTable.add_next hd hs
        ⟨distance e.2.pos pos, e.2.pos, e.2.key, e.2.onDemand⟩
      rw [hadd]
      obtain ⟨d', hfold, hd', hs'⟩ := ih _ hd₁ hs₁
      exact ⟨d', hfold, by rw [hd', List.append_assoc]; rfl, hs'⟩

/-- On a counted table the array has one slot for each line that is not virtual. -/
theorem Counted.nentries (h : this.Counted) :
    this.nentries true = this.keyVal.elements.countP (¬ ·.2.IsVirtual) := by
  have hsum := List.length_eq_countP_add_countP (fun e : CString × Sourceline F => e.2.IsVirtual)
    (l := this.keyVal.elements)
  rw [Sourcetable.nentries, HashTable.len_eq, if_pos rfl, h, hsum]
  simp

/-- What `sourcetable_find_pos` sorts: one slot for each line that is not virtual. -/
theorem exists_findPos [LT D] [DecidableLT D] (distance : Pos F → Pos F → D) (h : this.Counted)
    (pos : Pos F) :
    ∃ d : DistTable F D, this.findPos distance pos = some d.sort ∧
      d.distArray = (this.keyVal.elements.filterMap (spos distance pos)).map some ∧
      d.sizeDistArray = d.distArray.length := by
  obtain ⟨d, hfold, hd, hs⟩ := exists_foldlM_add distance pos this.keyVal.elements []
    (d := ⟨List.replicate (this.keyVal.elements.countP (¬ ·.2.IsVirtual)) none, 0, none,
      this.caster, this.port⟩) rfl rfl
  have hnew : DistTable.new (F := F) (D := D) (this.nentries true) this.caster this.port =
      some ⟨List.replicate (this.keyVal.elements.countP (¬ ·.2.IsVirtual)) none, 0, none,
        this.caster, this.port⟩ := by
    rw [h.nentries, DistTable.new, if_neg (by omega), Int.toNat_natCast]
  refine ⟨{ d with pos := some pos }, ?_, hd, hs⟩
  rw [findPos, hnew, Option.bind_eq_bind, Option.bind_some, hfold]
  rfl

/-- **The table of distances is filled exactly.** On a counted table `sourcetable_find_pos` writes
no slot out of bounds and leaves none; what it holds is one slot for each line that is not
virtual. -/
theorem findPos_fills [LT D] [DecidableLT D] (distance : Pos F → Pos F → D) (h : this.Counted)
    (pos : Pos F) :
    ∃ d : DistTable F D, this.findPos distance pos = some d ∧ d.Full ∧
      (d.distArray.length : ℤ) = this.nentries true ∧
      d.distArray.Perm ((this.keyVal.elements.filterMap (spos distance pos)).map some) := by
  obtain ⟨d, hfind, hd, hs⟩ := exists_findPos distance h pos
  have hperm : d.sort.distArray.Perm d.distArray := by
    rw [DistTable.sort, hs, List.take_length, List.drop_length, List.append_nil]
    exact List.mergeSort_perm _ _
  refine ⟨d.sort, hfind, ⟨hs.trans hperm.length_eq.symm, fun slot hslot => ?_⟩, ?_, hd ▸ hperm⟩
  · rw [hperm.mem_iff, hd] at hslot
    obtain ⟨p, -, rfl⟩ := List.mem_map.mp hslot
    rfl
  · rw [hperm.length_eq, hd, h.nentries, List.length_map, List.length_filterMap_eq_countP]
    congr 2
    funext e
    rw [spos]
    split <;> simp_all

end Sourcetable

end ChilopodCaster
