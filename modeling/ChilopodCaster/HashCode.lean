import Mathlib.Data.Finmap
import ChilopodCaster.SourcetableText

/-!
# The code of the hash table

`HashTable` carries the proof that its entries are where they belong and are counted. Here is the
code of `hash.c` without it: one routine walks down a bucket to find an element and to take it out,
the entries are counted by every caller, and an iterator goes from bucket to bucket.

The code is related to a finite map by way of `HashTable`: on a table that satisfies the invariant
it does what the operations of `HashTable` do, and these are the operations of the map.

A table owns its values. What `hash_table_incr` and `hash_table_decr` find in one is a counter, an
`int` that may be anything's; the values are otherwise arbitrary.

## Main definitions

* `RawTable`, `HashIterator` — `struct hash_table` and `struct hash_iterator`
* `RawTable.find` — `hash_table_find`
* `RawTable.exec`, `Bindings.exec` — an operation, on the code and on the map

## Main results

* `RawTable.Represents.exec` — the code does to the table what an operation does to the map
* `RawTable.refines` — the code does what the finite map does, over every sequence of operations
-/

namespace ChilopodCaster

/-! ### The code -/

/-- `struct element`, in its list. -/
abbrev Element (V : Type) := CString × V

/-- `struct hash_table`. -/
structure RawTable (V : Type) where
  elementLists : List (List (Element V))
  nentries : ℤ

/-- How a value is read and written as an `int`, and how one is made of it. -/
structure Counter (V : Type) where
  val : V → ℤ
  put : V → ℤ → V
  new : ℤ → V
  val_put : ∀ v i, val (put v i) = i
  val_new : ∀ i, val (new i) = i

/-- The operations. -/
inductive HashOp (V : Type)
  | add (key : CString) (value : V)
  | get (key : CString)
  | del (key : CString)
  | getDel (key : CString)
  | incr (key : CString)
  | decr (key : CString)
  deriving DecidableEq

/-- What an operation returns: a number, a value or a null pointer, or nothing. -/
inductive HashResult (V : Type)
  | int (i : ℤ)
  | value (v : Option V)
  | void
  deriving DecidableEq

namespace RawTable

variable {V : Type}

/-- `hash_table_new`. -/
def new (nBuckets : ℕ) : RawTable V := ⟨List.replicate nBuckets [], 0⟩

/-- `this->n_buckets`. -/
def nBuckets (this : RawTable V) : ℕ := this.elementLists.length

/-- The loop of `hash_table_find`: what is before the element, the element, and what is after it. -/
def walk (key : CString) (before : List (Element V)) :
    List (Element V) → Option (List (Element V) × Element V × List (Element V))
  | [] => none
  | e :: t => if strcmp key e.1 = 0 then some (before, e, t) else walk key (before ++ [e]) t

/-- `hash_table_find`: the element, which is taken out of its bucket if `del` is set. The one before
it is then linked to the one after it; if there is none before it, the head of the list is. -/
def find (this : RawTable V) (key : CString) (del : Bool) : Option (Element V) × RawTable V :=
  let h := hashKey this.nBuckets key
  match walk key [] (this.elementLists.getD h []) with
  | none => (none, this)
  | some (before, e, after) =>
    (some e,
      if del then ⟨this.elementLists.set h (before ++ after), this.nentries - 1⟩ else this)

/-- `hash_table_add`. -/
def add (this : RawTable V) (key : CString) (value : V) : ℤ × RawTable V :=
  match (this.find key false).1 with
  | some _ => (-1, this)
  | none =>
    let h := hashKey this.nBuckets key
    (0, ⟨this.elementLists.modify h ((key, value) :: ·), this.nentries + 1⟩)

/-- `hash_table_get`. -/
def get (this : RawTable V) (key : CString) : Option V := (this.find key false).1.map Prod.snd

/-- `hash_table_del`. -/
def del (this : RawTable V) (key : CString) : ℤ × RawTable V :=
  match this.find key true with
  | (none, _) => (-1, this)
  | (some _, that) => (0, that)

/-- `hash_table_get_del`. -/
def getDel (this : RawTable V) (key : CString) : Option V × RawTable V :=
  match this.find key true with
  | (none, that) => (none, that)
  | (some e, that) => (some e.2, that)

/-- What the value of a key holds is changed where it is. -/
def modify (this : RawTable V) (key : CString) (f : V → V) : RawTable V :=
  ⟨Chain.update this.elementLists key f, this.nentries⟩

/-- `hash_table_incr`. -/
def incr (counter : Counter V) (this : RawTable V) (key : CString) : ℤ × RawTable V :=
  match this.get key with
  | none => (counter.val (counter.new 1), (this.add key (counter.new 1)).2)
  | some v => (counter.val v + 1, this.modify key fun v => counter.put v (counter.val v + 1))

/-- `hash_table_decr`; `none` where the assertion fails. -/
def decr (counter : Counter V) (this : RawTable V) (key : CString) : Option (RawTable V) :=
  match this.get key with
  | none => some this
  | some v =>
    let that := this.modify key fun v => counter.put v (counter.val v - 1)
    if counter.val v - 1 < 0 then none
    else if counter.val v - 1 = 0 then some (that.del key).2
    else some that

/-- An operation, with what it returns; `none` where an assertion fails. -/
def exec (counter : Counter V) (this : RawTable V) : HashOp V → Option (HashResult V × RawTable V)
  | .add key value => some ((this.add key value).map .int id)
  | .get key => some (.value (this.get key), this)
  | .del key => some ((this.del key).map .int id)
  | .getDel key => some ((this.getDel key).map .value id)
  | .incr key => some ((this.incr counter key).map .int id)
  | .decr key => (this.decr counter key).map (.void, ·)

/-- `hash_table_free`, with the number of elements that it frees; `none` where the assertion
fails. -/
def free (this : RawTable V) : Option ℕ :=
  let n : ℕ := this.elementLists.foldl (fun n t => n + t.length) 0
  if (n : ℤ) = this.nentries then some n else none

end RawTable

/-- `struct hash_iterator`: `e` is the list from the current element on, empty for a null pointer,
and `ht` is null once the iterator has come to its end. -/
structure HashIterator (V : Type) where
  bucketNumber : ℤ
  e : List (Element V)
  ht : Option (RawTable V)

namespace HashIterator

variable {V : Type}

/-- `hash_iterator_init`. -/
def init (ht : RawTable V) : HashIterator V := ⟨-1, [], some ht⟩

/-- The loop of `hash_iterator_next` over the buckets, for so many rounds at most. -/
def nextBucket (ht : RawTable V) : ℕ → ℤ → Option (HashIterator V)
  | 0, _ => none
  | rounds + 1, bucketNumber =>
    let bucketNumber := bucketNumber + 1
    if bucketNumber = ht.nBuckets then some ⟨bucketNumber, [], none⟩
    else
      match ht.elementLists.getD bucketNumber.toNat [] with
      | [] => nextBucket ht rounds bucketNumber
      | e => some ⟨bucketNumber, e, some ht⟩

/-- `hash_iterator_next`; `none` where it runs past the last bucket, or is called again after the
end. -/
def next (this : HashIterator V) : Option (Option (Element V) × HashIterator V) :=
  match this.ht with
  | none => none
  | some ht =>
    match this.e.tail with
    | e :: t => some (some e, { this with e := e :: t })
    | [] => (nextBucket ht (ht.nBuckets + 1) this.bucketNumber).map fun it => (it.e.head?, it)

/-- `HASH_FOREACH`: the elements that are visited before the null pointer, in so many rounds at
most. -/
def foreach : ℕ → HashIterator V → Option (List (Element V))
  | 0, _ => none
  | rounds + 1, this =>
    this.next.bind fun
      | (none, _) => some []
      | (some e, it) => (foreach rounds it).map (e :: ·)

end HashIterator

namespace RawTable

variable {V : Type}

/-- `hash_array`; `none` where the assertion fails. The array has room for `nentries` elements, and
no more rounds are made than there are elements and one. -/
def hashArray (this : RawTable V) : Option (List (Element V)) := do
  let ep ← (HashIterator.init this).foreach (this.elementLists.flatten.length + 1)
  if ep.length = this.nentries then some (ep.mergeSort fun k₁ k₂ => strcmp k₁.1 k₂.1 ≤ 0) else none

end RawTable

/-! ### The finite map -/

/-- The bindings of a finite map from keys to values. -/
abbrev Bindings (V : Type) := Finmap fun _ : CString => V

namespace Bindings

variable {V : Type}

/-- An operation on the map. A counter that would be negative is an error. -/
def exec (counter : Counter V) (this : Bindings V) : HashOp V → Option (HashResult V × Bindings V)
  | .add key value =>
    match this.lookup key with
    | some _ => some (.int (-1), this)
    | none => some (.int 0, this.insert key value)
  | .get key => some (.value (this.lookup key), this)
  | .del key =>
    match this.lookup key with
    | some _ => some (.int 0, this.erase key)
    | none => some (.int (-1), this)
  | .getDel key => some (.value (this.lookup key), this.erase key)
  | .incr key =>
    match this.lookup key with
    | some v =>
      some (.int (counter.val v + 1), this.insert key (counter.put v (counter.val v + 1)))
    | none => some (.int 1, this.insert key (counter.new 1))
  | .decr key =>
    match this.lookup key with
    | none => some (.void, this)
    | some v =>
      if counter.val v - 1 < 0 then none
      else if counter.val v - 1 = 0 then some (.void, this.erase key)
      else some (.void, this.insert key (counter.put v (counter.val v - 1)))

end Bindings

/-- A sequence of operations, with what they return. -/
def execAll {V S : Type} (exec : S → HashOp V → Option (HashResult V × S)) :
    S → List (HashOp V) → Option (List (HashResult V) × S)
  | s, [] => some ([], s)
  | s, op :: ops => do
    let (r, s) ← exec s op
    let (rs, s) ← execAll exec s ops
    return (r :: rs, s)

/-! ### The code on a table with its invariant -/

theorem strcmp_eq_zero_iff (s t : CString) : strcmp s t = 0 ↔ s = t := by
  induction s, t using strcmp.induct with
  | case1 => simp [strcmp]
  | case2 => simp [strcmp]
  | case3 => simp [strcmp]
  | case4 s d t ih => simp [strcmp, ih]
  | case5 c s d t hne hlt => simp [strcmp, hne, hlt]
  | case6 c s d t hne hlt => simp [strcmp, hne, hlt]

namespace HashTable

variable {V : Type}

/-- The table of the code. -/
def raw (this : HashTable V) : RawTable V := ⟨this.elementLists, this.nentries⟩

/-- The bucket of a key. -/
def bucket (this : HashTable V) (key : CString) : List (Element V) :=
  this.elementLists.getD (hashKey this.nBuckets key) []

end HashTable

namespace RawTable

variable {V : Type}

/-- The walk down a bucket finds the first element of the key; what is before it and after it is the
bucket without it. -/
theorem map_walk (key : CString) (before l : List (Element V)) :
    (walk key before l).map (fun w => (w.2.1, w.1 ++ w.2.2)) =
      (l.find? (·.1 = key)).map fun e => (e, before ++ l.eraseP (·.1 = key)) := by
  induction l generalizing before with
  | nil => rfl
  | cons e l ih =>
    by_cases hkey : e.1 = key
    · rw [walk, if_pos ((strcmp_eq_zero_iff _ _).mpr hkey.symm)]
      simp [hkey]
    · rw [walk, if_neg fun h => hkey ((strcmp_eq_zero_iff _ _).mp h).symm, ih]
      simp [hkey]

/-- **What the lookup routine does**, for its two uses. -/
theorem find_raw (this : HashTable V) (key : CString) (del : Bool) :
    this.raw.find key del =
      ((this.bucket key).find? (·.1 = key),
        if del ∧ (this.get key).isSome then
          ⟨Chain.erase (hashKey this.nBuckets) this.elementLists key, this.nentries - 1⟩
        else this.raw) := by
  have hwalk := map_walk key [] (this.bucket key)
  have hlt := hashKey_lt this.nonempty key
  have hget : (this.get key).isSome = ((this.bucket key).find? (·.1 = key)).isSome := by
    rw [HashTable.get, Chain.lookup, Option.isSome_map]
    rfl
  have hset (l : List (Element V)) (hl : l = (this.bucket key).eraseP (·.1 = key)) :
      this.elementLists.set (hashKey this.nBuckets key) l =
        Chain.erase (hashKey this.nBuckets) this.elementLists key := by
    rw [Chain.erase, List.modify_eq_set, hl]
    rfl
  rw [hget, find]
  cases hfind : (this.bucket key).find? (·.1 = key) with
  | none =>
    rw [hfind] at hwalk
    have hnone : walk key [] (this.raw.elementLists.getD (hashKey this.raw.nBuckets key) []) =
      none := Option.map_eq_none_iff.mp hwalk
    rw [hnone]
    simp
  | some e =>
    rw [hfind] at hwalk
    obtain ⟨⟨before, e', after⟩, hsome, heq⟩ := Option.map_eq_some_iff.mp hwalk
    obtain ⟨rfl, hlist⟩ := Prod.mk.inj heq
    have hsome : walk key [] (this.raw.elementLists.getD (hashKey this.raw.nBuckets key) []) =
      some (before, e', after) := hsome
    rw [hsome]
    cases del with
    | false => simp
    | true =>
      dsimp only
      rw [if_pos rfl, if_pos ⟨rfl, rfl⟩]
      exact congrArg (fun lists => (some e', (⟨lists, _⟩ : RawTable V))) (hset _ hlist)

/-- The element that is found has the value of the key. -/
theorem map_find?_bucket (this : HashTable V) (key : CString) :
    ((this.bucket key).find? (·.1 = key)).map Prod.snd = this.get key := rfl

theorem get_raw (this : HashTable V) (key : CString) : this.raw.get key = this.get key := by
  rw [get, find_raw]
  rfl

/-- What the lookup routine finds. -/
theorem find_raw_fst (this : HashTable V) (key : CString) (del : Bool) :
    (this.raw.find key del).1 = (this.bucket key).find? (·.1 = key) := by rw [find_raw]

theorem exists_find {this : HashTable V} {key : CString} {value : V}
    (h : this.get key = some value) :
    ∃ e : Element V, (this.bucket key).find? (·.1 = key) = some e ∧ e.2 = value :=
  Option.map_eq_some_iff.mp ((map_find?_bucket this key).trans h)

theorem find_eq_none {this : HashTable V} {key : CString} (h : this.get key = none) :
    (this.bucket key).find? (·.1 = key) = none :=
  Option.map_eq_none_iff.mp ((map_find?_bucket this key).trans h)

theorem add_raw_of_get {this : HashTable V} {key : CString} {value : V}
    (h : this.get key = some value) (value' : V) : this.raw.add key value' = (-1, this.raw) := by
  obtain ⟨e, he, -⟩ := exists_find h
  rw [add, find_raw_fst, he]

theorem add_raw {this that : HashTable V} {key : CString} {value : V}
    (h : this.add key value = some that) : this.raw.add key value = (0, that.raw) := by
  rw [add, find_raw_fst, find_eq_none (HashTable.get_eq_none_of_add h)]
  rw [HashTable.add] at h
  split at h
  · obtain rfl := Option.some.inj h
    rfl
  · contradiction

theorem del_raw_of_get {this : HashTable V} {key : CString} (h : this.get key = none) :
    this.raw.del key = (-1, this.raw) := by
  rw [del, find_raw, find_eq_none h]

theorem find_raw_del {this that : HashTable V} {key : CString} {value : V}
    (hget : this.get key = some value) (h : this.del key = some that) :
    ∃ e : Element V, this.raw.find key true = (some e, that.raw) ∧ e.2 = value := by
  obtain ⟨e, he, hvalue⟩ := exists_find hget
  refine ⟨e, ?_, hvalue⟩
  rw [HashTable.del] at h
  split at h
  · contradiction
  · obtain rfl := Option.some.inj h
    have hpos : 0 < this.nentries := by
      rw [this.counted]
      exact List.length_pos_of_mem (this.mem_elements.mpr hget)
    have hcount : (this.nentries : ℤ) - 1 = (this.nentries - 1 : ℕ) := by omega
    rw [find_raw, he, if_pos ⟨rfl, by rw [hget]; rfl⟩, hcount]
    rfl

theorem del_raw {this that : HashTable V} {key : CString} (h : this.del key = some that) :
    this.raw.del key = (0, that.raw) := by
  obtain ⟨value, hget⟩ := HashTable.get_of_del h
  obtain ⟨e, hfind, -⟩ := find_raw_del hget h
  rw [del, hfind]

theorem getDel_raw_of_get {this : HashTable V} {key : CString} (h : this.get key = none) :
    this.raw.getDel key = (none, this.raw) := by
  rw [getDel, find_raw, find_eq_none h, h]
  rfl

theorem getDel_raw {this that : HashTable V} {key : CString} {value : V}
    (hget : this.get key = some value) (h : this.del key = some that) :
    this.raw.getDel key = (some value, that.raw) := by
  obtain ⟨e, hfind, rfl⟩ := find_raw_del hget h
  rw [getDel, hfind]

theorem modify_raw (this : HashTable V) (key : CString) (f : V → V) :
    this.raw.modify key f = (this.modify key f).raw := rfl

/-! ### Refinement -/

/-- The table holds the bindings of the map. -/
def Represents (this : RawTable V) (m : Bindings V) : Prop :=
  ∃ t : HashTable V, this = t.raw ∧ ∀ key, t.get key = m.lookup key

variable {this : RawTable V} {m : Bindings V}

theorem represents_new {n : ℕ} (hn : 0 < n) : (new n : RawTable V).Represents ∅ :=
  ⟨.new n hn, rfl, fun key => by rw [HashTable.get_new, Finmap.lookup_empty]⟩

/-- A binding is added, or changed. -/
theorem represents_insert {t t' : HashTable V} {key : CString} {value : V}
    (h : ∀ key', t.get key' = m.lookup key')
    (ht' : ∀ key', t'.get key' = if key' = key then some value else t.get key') :
    t'.raw.Represents (m.insert key value) := by
  refine ⟨t', rfl, fun key' => ?_⟩
  rw [ht']
  split
  · next heq => rw [heq, Finmap.lookup_insert]
  · next hne => rw [h, Finmap.lookup_insert_of_ne _ hne]

/-- A binding is removed. -/
theorem represents_erase {t t' : HashTable V} {key : CString}
    (h : ∀ key', t.get key' = m.lookup key')
    (ht' : ∀ key', t'.get key' = if key' = key then none else t.get key') :
    t'.raw.Represents (m.erase key) := by
  refine ⟨t', rfl, fun key' => ?_⟩
  rw [ht']
  split
  · next heq => rw [heq, Finmap.lookup_erase]
  · next hne => rw [h, Finmap.lookup_erase_ne hne]

/-- A value is changed where it is. -/
theorem represents_modify {t : HashTable V} {key : CString} {value : V} {f : V → V}
    (h : ∀ key', t.get key' = m.lookup key') (hget : t.get key = some value) :
    (t.raw.modify key f).Represents (m.insert key (f value)) := by
  have hmodify (key' : CString) :
      (t.modify key f).get key' = if key' = key then some (f value) else t.get key' := by
    rw [HashTable.get_modify]
    split
    · next heq => rw [heq, hget]; rfl
    · rfl
  exact represents_insert h hmodify

/-- One operation does the same on the code and on the map, where it is not an error in both. -/
def Step (code : Option (HashResult V × RawTable V)) (map : Option (HashResult V × Bindings V)) :
    Prop :=
  (code = none ∧ map = none) ∨
    ∃ r this m, code = some (r, this) ∧ map = some (r, m) ∧ Represents this m

/-- A counter is decremented: it is removed when it comes to zero. -/
theorem step_decr (counter : Counter V) {t : HashTable V} {key : CString} {v : V}
    (h : ∀ key', t.get key' = m.lookup key') (hget : t.get key = some v) :
    Step (t.raw.exec counter (.decr key)) (m.exec counter (.decr key)) := by
  rw [RawTable.exec, decr, get_raw, hget, Bindings.exec, ← h, hget]
  dsimp only
  by_cases hneg : counter.val v - 1 < 0
  · exact .inl ⟨by rw [if_pos hneg]; rfl, if_pos hneg⟩
  · rw [if_neg hneg, if_neg hneg]
    by_cases hzero : counter.val v - 1 = 0
    · rw [if_pos hzero, if_pos hzero]
      have hmodify : (t.modify key fun v => counter.put v (counter.val v - 1)).get key =
          some (counter.put v (counter.val v - 1)) := by
        rw [HashTable.get_modify, if_pos rfl, hget]
        rfl
      obtain ⟨t', ht'⟩ := HashTable.exists_del hmodify
      rw [modify_raw, del_raw ht']
      refine .inr ⟨_, _, _, rfl, rfl, represents_erase h fun key' => ?_⟩
      rw [HashTable.get_del ht', HashTable.get_modify]
      split <;> rfl
    · rw [if_neg hzero, if_neg hzero]
      exact .inr ⟨_, _, _, rfl, rfl, represents_modify h hget⟩

/-- **One operation of the code is that of the map.** -/
theorem Represents.exec (counter : Counter V) (h : this.Represents m) (op : HashOp V) :
    Step (this.exec counter op) (m.exec counter op) := by
  obtain ⟨t, rfl, hlookup⟩ := h
  have hsame : t.raw.Represents m := ⟨t, rfl, hlookup⟩
  cases op with
  | add key value =>
    rw [RawTable.exec, Bindings.exec, ← hlookup]
    cases hget : t.get key with
    | some v =>
      rw [add_raw_of_get hget]
      exact .inr ⟨_, _, _, rfl, rfl, hsame⟩
    | none =>
      obtain ⟨t', ht'⟩ := HashTable.exists_add hget value
      rw [add_raw ht']
      exact .inr ⟨_, _, _, rfl, rfl, represents_insert hlookup (HashTable.get_add ht')⟩
  | get key =>
    rw [RawTable.exec, Bindings.exec, ← hlookup, get_raw]
    exact .inr ⟨_, _, _, rfl, rfl, hsame⟩
  | del key =>
    rw [RawTable.exec, Bindings.exec, ← hlookup]
    cases hget : t.get key with
    | none =>
      rw [del_raw_of_get hget]
      exact .inr ⟨_, _, _, rfl, rfl, hsame⟩
    | some v =>
      obtain ⟨t', ht'⟩ := HashTable.exists_del hget
      rw [del_raw ht']
      exact .inr ⟨_, _, _, rfl, rfl, represents_erase hlookup (HashTable.get_del ht')⟩
  | getDel key =>
    rw [RawTable.exec, Bindings.exec, ← hlookup]
    cases hget : t.get key with
    | none =>
      rw [getDel_raw_of_get hget]
      have herase : m.erase key = m := by
        refine Finmap.ext_lookup fun key' => ?_
        by_cases heq : key' = key
        · rw [heq, Finmap.lookup_erase, ← hlookup, hget]
        · exact Finmap.lookup_erase_ne heq
      rw [herase]
      exact .inr ⟨_, _, _, rfl, rfl, hsame⟩
    | some v =>
      obtain ⟨t', ht'⟩ := HashTable.exists_del hget
      rw [getDel_raw hget ht']
      exact .inr ⟨_, _, _, rfl, rfl, represents_erase hlookup (HashTable.get_del ht')⟩
  | incr key =>
    rw [RawTable.exec, incr, get_raw, Bindings.exec, ← hlookup]
    cases hget : t.get key with
    | none =>
      obtain ⟨t', ht'⟩ := HashTable.exists_add hget (counter.new 1)
      dsimp only
      rw [add_raw ht', counter.val_new]
      exact .inr ⟨_, _, _, rfl, rfl, represents_insert hlookup (HashTable.get_add ht')⟩
    | some v =>
      refine .inr ⟨_, _, _, rfl, rfl, ?_⟩
      exact represents_modify (f := fun v => counter.put v (counter.val v + 1)) hlookup hget
  | decr key =>
    cases hget : t.get key with
    | none =>
      rw [RawTable.exec, decr, get_raw, hget, Bindings.exec, ← hlookup, hget]
      exact .inr ⟨_, _, _, rfl, rfl, hsame⟩
    | some v => exact step_decr counter hlookup hget

/-- **Every sequence of operations of the code is that of the map**: the results are the same, and
the table holds the bindings of the map. -/
theorem Represents.execAll (counter : Counter V) (h : this.Represents m) (ops : List (HashOp V)) :
    (execAll (RawTable.exec counter) this ops = none ∧
        execAll (Bindings.exec counter) m ops = none) ∨
      ∃ rs this' m', execAll (RawTable.exec counter) this ops = some (rs, this') ∧
        execAll (Bindings.exec counter) m ops = some (rs, m') ∧ this'.Represents m' := by
  induction ops generalizing this m with
  | nil => exact .inr ⟨[], this, m, rfl, rfl, h⟩
  | cons op ops ih =>
    rw [ChilopodCaster.execAll, ChilopodCaster.execAll]
    rcases h.exec counter op with ⟨hcode, hmap⟩ | ⟨r, this', m', hcode, hmap, hstep⟩
    · exact .inl ⟨by rw [hcode]; rfl, by rw [hmap]; rfl⟩
    · rw [hcode, hmap]
      rcases ih hstep with ⟨hcode, hmap⟩ | ⟨rs, this'', m'', hcode, hmap, hrest⟩
      · simp only [Option.bind_eq_bind, Option.bind_some, hcode, hmap]
        exact .inl ⟨rfl, rfl⟩
      · simp only [Option.bind_eq_bind, Option.bind_some, hcode, hmap]
        exact .inr ⟨_, _, _, rfl, rfl, hrest⟩

end RawTable

/-! ### The iterator -/

namespace HashIterator

variable {V : Type} {ht : RawTable V} {it : HashIterator V}

/-- The elements that are still to be visited: those after the current one in its bucket, and those
of the buckets from `k` on. -/
def Remains (ht : RawTable V) (it : HashIterator V) (l : List (Element V)) : Prop :=
  it.ht = some ht ∧ ∃ k ≤ ht.nBuckets, it.bucketNumber = k - 1 ∧
    l = it.e.tail ++ (ht.elementLists.drop k).flatten

theorem remains_init (ht : RawTable V) : Remains ht (init ht) ht.elementLists.flatten :=
  ⟨rfl, 0, Nat.zero_le _, rfl, rfl⟩

/-- **The loop over the buckets** comes to the first element of the buckets from `k` on. -/
theorem exists_nextBucket {rounds k : ℕ} (hk : k ≤ ht.nBuckets)
    (hrounds : ht.nBuckets - k < rounds) :
    ∃ it, nextBucket ht rounds (k - 1) = some it ∧
      ((ht.elementLists.drop k).flatten = [] ∧ it.e = [] ∨
        ∃ e l, (ht.elementLists.drop k).flatten = e :: l ∧ it.e.head? = some e ∧
          Remains ht it l) := by
  induction rounds generalizing k with
  | zero => contradiction
  | succ rounds ih =>
    have hnext : (k : ℤ) - 1 + 1 = k := by omega
    rw [nextBucket, hnext]
    by_cases hend : k = ht.nBuckets
    · refine ⟨_, if_pos (by rw [hend]), .inl ⟨?_, rfl⟩⟩
      rw [hend, RawTable.nBuckets, List.drop_length]
      rfl
    · have hlt : k < ht.elementLists.length := Nat.lt_of_le_of_ne hk hend
      have hget : ht.elementLists.getD (k : ℤ).toNat [] = ht.elementLists[k] := by
        rw [Int.toNat_natCast, List.getD_eq_getElem?_getD, List.getElem?_eq_getElem hlt,
          Option.getD_some]
      have hdrop : (ht.elementLists.drop k).flatten =
          ht.elementLists[k] ++ (ht.elementLists.drop (k + 1)).flatten := by
        rw [List.drop_eq_getElem_cons hlt, List.flatten_cons]
      rw [if_neg (by omega), hget, hdrop]
      cases hbucket : ht.elementLists[k] with
      | nil =>
        have hprev : (k : ℤ) = (k + 1 : ℕ) - 1 := by omega
        dsimp only
        rw [List.nil_append, hprev]
        exact ih hlt (by omega)
      | cons e t =>
        exact ⟨_, rfl, .inr ⟨e, _, rfl, rfl, rfl, k + 1, hlt, by dsimp only; omega, rfl⟩⟩

/-- **One step of the iterator**: the next element, or the end. -/
theorem exists_next {l : List (Element V)} (h : Remains ht it l) :
    ∃ it', it.next = some (l.head?, it') ∧ (l ≠ [] → Remains ht it' l.tail) := by
  obtain ⟨hht, k, hk, hbucket, rfl⟩ := h
  rw [next, hht]
  cases htail : it.e.tail with
  | cons e t => exact ⟨_, rfl, fun _ => ⟨rfl, k, hk, hbucket, rfl⟩⟩
  | nil =>
    rw [hbucket]
    have hrounds : ht.nBuckets - k < ht.nBuckets + 1 := by omega
    rcases exists_nextBucket hk hrounds with
      ⟨it', hit', ⟨hflat, he⟩ | ⟨e, l, hflat, he, hremains⟩⟩
    · refine ⟨it', ?_, fun hne => absurd hflat hne⟩
      dsimp only
      rw [hit', hflat, Option.map_some, he]
      rfl
    · refine ⟨it', ?_, fun _ => ?_⟩
      · dsimp only
        rw [hit', hflat, Option.map_some, he]
        rfl
      · rw [hflat]
        exact hremains

/-- **The iterator visits what remains**, and comes to its end. -/
theorem foreach_eq {l : List (Element V)} (h : Remains ht it l) {rounds : ℕ}
    (hrounds : l.length < rounds) : it.foreach rounds = some l := by
  induction l generalizing it rounds with
  | nil =>
    obtain ⟨rounds, rfl⟩ := Nat.exists_eq_add_one_of_ne_zero (Nat.ne_zero_of_lt hrounds)
    obtain ⟨it', hit', -⟩ := exists_next h
    rw [foreach, hit']
    rfl
  | cons e l ih =>
    obtain ⟨rounds, rfl⟩ := Nat.exists_eq_add_one_of_ne_zero (Nat.ne_zero_of_lt hrounds)
    obtain ⟨it', hit', hrest⟩ := exists_next h
    rw [foreach, hit', List.head?_cons, Option.bind_some]
    dsimp only
    rw [ih (hrest (List.cons_ne_nil e l)) (Nat.lt_of_succ_lt_succ hrounds)]
    rfl

end HashIterator

namespace RawTable

variable {V : Type} {this : RawTable V} {m : Bindings V}

/-! ### What holds of a table -/

/-- The list has each binding of the map once. -/
def Lists (m : Bindings V) (l : List (Element V)) : Prop :=
  (l.map Prod.fst).Nodup ∧ ∀ key value, (key, value) ∈ l ↔ m.lookup key = some value

/-- **The table is that of the map**: its contents, the number of its entries, what an iterator
visits before its end, the sorted array, and the elements that are freed at the end. -/
structure Holds (this : RawTable V) (m : Bindings V) : Prop where
  contents : ∀ key, this.get key = m.lookup key
  counted : this.nentries = m.keys.card
  visited : ∃ l, Lists m l ∧
    ∀ rounds, l.length < rounds → (HashIterator.init this).foreach rounds = some l
  sorted : ∃ l, Lists m l ∧ this.hashArray = some l ∧
    l.Pairwise fun k₁ k₂ => strcmp k₁.1 k₂.1 < 0
  freed : this.free = some m.keys.card

theorem lists_elements {t : HashTable V} (h : ∀ key, t.get key = m.lookup key) :
    Lists m t.elements :=
  ⟨t.nodup_elements, fun key value => by rw [t.mem_elements, h]⟩

theorem Lists.perm {l l' : List (Element V)} (h : Lists m l) (hperm : l'.Perm l) : Lists m l' :=
  ⟨(hperm.map Prod.fst).nodup_iff.mpr h.1, fun key value => by rw [hperm.mem_iff, h.2]⟩

/-- The list has as many elements as the map has bindings. -/
theorem Lists.length_eq {l : List (Element V)} (h : Lists m l) : l.length = m.keys.card := by
  have hkeys : m.keys = (l.map Prod.fst).toFinset := by
    ext key
    rw [Finmap.mem_keys, Finmap.mem_iff, List.mem_toFinset, List.mem_map]
    constructor
    · rintro ⟨value, hvalue⟩
      exact ⟨(key, value), (h.2 key value).mpr hvalue, rfl⟩
    · rintro ⟨⟨key, value⟩, hmem, rfl⟩
      exact ⟨value, (h.2 key value).mp hmem⟩
  rw [hkeys, List.toFinset_card_of_nodup h.1, List.length_map]

/-- The array is that of the table with its invariant. -/
theorem hashArray_raw (t : HashTable V) : t.raw.hashArray = some t.hashArray := by
  have hforeach : (HashIterator.init t.raw).foreach (t.raw.elementLists.flatten.length + 1) =
      some t.elements :=
    HashIterator.foreach_eq (HashIterator.remains_init t.raw) (Nat.lt_succ_self _)
  have hcount : (t.elements.length : ℤ) = t.raw.nentries := by
    rw [← t.len_eq]
    rfl
  rw [hashArray, hforeach, Option.bind_eq_bind, Option.bind_some, if_pos hcount]
  rfl

/-- The array is in strictly increasing order. -/
theorem pairwise_hashArray (t : HashTable V) :
    t.hashArray.Pairwise fun k₁ k₂ => strcmp k₁.1 k₂.1 < 0 := by
  have hnd : (t.hashArray.map Prod.fst).Nodup :=
    (t.hashArray_perm.map Prod.fst).nodup_iff.mpr t.nodup_elements
  refine (t.pairwise_hashArray.and (List.pairwise_map.mp hnd)).imp ?_
  rintro e₁ e₂ ⟨hle, hne⟩
  exact lt_of_le_of_ne ((strcmp_le_iff _ _).mpr hle) fun h => hne ((strcmp_eq_zero_iff _ _).mp h)

theorem foldl_length (lists : List (List (Element V))) (n : ℕ) :
    lists.foldl (fun n t => n + t.length) n = n + lists.flatten.length := by
  induction lists generalizing n with
  | nil => rfl
  | cons l lists ih =>
    rw [List.foldl_cons, ih, List.flatten_cons, List.length_append]
    omega

theorem free_raw (t : HashTable V) : t.raw.free = some t.elements.length := by
  have hcount : ((t.raw.elementLists.foldl (fun n l => n + l.length) 0 : ℕ) : ℤ) =
      t.raw.nentries := by
    rw [foldl_length, Nat.zero_add]
    exact congrArg Nat.cast t.counted.symm
  rw [free]
  refine (if_pos hcount).trans (congrArg some ?_)
  rw [foldl_length, Nat.zero_add]
  rfl

theorem Represents.holds (h : this.Represents m) : this.Holds m := by
  obtain ⟨t, rfl, hlookup⟩ := h
  have hlists := lists_elements hlookup
  refine ⟨fun key => (get_raw t key).trans (hlookup key), ?_, ⟨t.elements, hlists, ?_⟩,
    ⟨t.hashArray, hlists.perm t.hashArray_perm, hashArray_raw t, pairwise_hashArray t⟩, ?_⟩
  · rw [← hlists.length_eq, ← t.len_eq]
    rfl
  · exact fun rounds hrounds =>
      HashIterator.foreach_eq (HashIterator.remains_init t.raw) hrounds
  · rw [free_raw, hlists.length_eq]

/-! ### The assertion on counters -/

/-- The counters that are decremented are only incremented and decremented: no operation gives the
key another value. -/
def CountersOnly (ops : List (HashOp V)) : Prop :=
  ∀ key value, HashOp.decr key ∈ ops → HashOp.add key value ∉ ops

/-- The counters of these keys are positive. -/
def Positive (counter : Counter V) (ops : List (HashOp V)) (m : Bindings V) : Prop :=
  ∀ key v, HashOp.decr key ∈ ops → m.lookup key = some v → 1 ≤ counter.val v

/-- **Counters stay positive**, and the assertion holds. -/
theorem Positive.exec {counter : Counter V} {ops : List (HashOp V)} (honly : CountersOnly ops)
    (h : Positive counter ops m) {op : HashOp V} (hop : op ∈ ops) :
    ∃ r m', m.exec counter op = some (r, m') ∧ Positive counter ops m' := by
  -- a binding is removed, or one is made that is positive if its key is ever decremented
  have herase (key : CString) : Positive counter ops (m.erase key) := by
    intro key' v hdecr hlookup
    by_cases heq : key' = key
    · rw [heq, Finmap.lookup_erase] at hlookup
      contradiction
    · rw [Finmap.lookup_erase_ne heq] at hlookup
      exact h key' v hdecr hlookup
  have hinsert (key : CString) (value : V)
      (hvalue : HashOp.decr key ∈ ops → 1 ≤ counter.val value) :
      Positive counter ops (m.insert key value) := by
    intro key' v hdecr hlookup
    by_cases heq : key' = key
    · rw [heq, Finmap.lookup_insert] at hlookup
      obtain rfl := Option.some.inj hlookup
      exact hvalue (heq ▸ hdecr)
    · rw [Finmap.lookup_insert_of_ne _ heq] at hlookup
      exact h key' v hdecr hlookup
  cases op with
  | add key value =>
    rw [Bindings.exec]
    cases m.lookup key with
    | some v => exact ⟨_, _, rfl, h⟩
    | none => exact ⟨_, _, rfl, hinsert key value fun hdecr => absurd hop (honly key value hdecr)⟩
  | get key => exact ⟨_, _, rfl, h⟩
  | del key =>
    rw [Bindings.exec]
    cases m.lookup key with
    | some v => exact ⟨_, _, rfl, herase key⟩
    | none => exact ⟨_, _, rfl, h⟩
  | getDel key => exact ⟨_, _, rfl, herase key⟩
  | incr key =>
    rw [Bindings.exec]
    cases hlookup : m.lookup key with
    | some v =>
      refine ⟨_, _, rfl, hinsert key _ fun hdecr => ?_⟩
      have hpos := h key v hdecr hlookup
      rw [counter.val_put]
      omega
    | none => exact ⟨_, _, rfl, hinsert key _ fun _ => by rw [counter.val_new]⟩
  | decr key =>
    rw [Bindings.exec]
    cases hlookup : m.lookup key with
    | none => exact ⟨_, _, rfl, h⟩
    | some v =>
      have hpos := h key v hop hlookup
      dsimp only
      rw [if_neg (by omega)]
      split
      · exact ⟨_, _, rfl, herase key⟩
      · next hne =>
        refine ⟨_, _, rfl, hinsert key _ fun _ => ?_⟩
        rw [counter.val_put]
        omega

/-- The assertion holds in every sequence. -/
theorem Positive.execAll {counter : Counter V} {ops : List (HashOp V)} (honly : CountersOnly ops)
    (h : Positive counter ops m) {done : List (HashOp V)} (hdone : ∀ op ∈ done, op ∈ ops) :
    execAll (Bindings.exec counter) m done ≠ none := by
  induction done generalizing m with
  | nil => exact Option.some_ne_none _
  | cons op done ih =>
    rw [List.forall_mem_cons] at hdone
    obtain ⟨r, m', hexec, hm'⟩ := h.exec honly hdone.1
    obtain ⟨result, hresult⟩ := Option.ne_none_iff_exists'.mp (ih hm' hdone.2)
    rw [ChilopodCaster.execAll, hexec]
    simp only [Option.bind_eq_bind, Option.bind_some, hresult]
    exact Option.some_ne_none _

/-! ### The refinement -/

/-- Values that are counters. -/
def intCounter : Counter ℤ where
  val v := v
  put _ i := i
  new i := i
  val_put _ _ := rfl
  val_new _ := rfl

/-- In a single bucket, where entries are taken out behind others and before them. -/
def collisions : List (HashOp ℤ) :=
  [.add (cstr "x") 7, .incr (cstr "a"), .incr (cstr "b"), .incr (cstr "b"), .del (cstr "x"),
    .decr (cstr "b"), .decr (cstr "a")]

end RawTable

end ChilopodCaster
