import ChilopodCaster.Bytes
import ChilopodCaster.Lib.Chain

/-!
# The hash tables of the caster

The key-value store of `hash.c`: a fixed number of buckets, each one a linked list, with the
number of entries kept beside them. Values are of any type, keys are C strings. Memory never runs
out here, so `hash_table_add` fails only on a key that is there already.

A `HashTable` carries the proof that its entries are in their buckets and are counted, so that
what it holds is a finite map; `get`, `add` and `del` are then described by their effect on that
map and on `elements`, the entries as `HASH_FOREACH` visits them.

## Main definitions

* `hashKey` — `hash_key`
* `HashTable`, `HashTable.new`, `HashTable.get`, `HashTable.add`, `HashTable.del`

## Main results

* `HashTable.get_add`, `HashTable.get_del` — the operations, on the map
* `HashTable.mem_elements` — the entries visited are those of the map
* `HashTable.get_incr`, `HashTable.exists_decr` — the counters
-/

namespace ChilopodCaster

/-- `hash_key`, in 32-bit unsigned arithmetic; the characters are signed. -/
def hashKey (nBuckets : ℕ) (key : CString) : ℕ :=
  (key.foldl (fun hash c => hash * 37 + c.signExtend 32) 441#32).toNat % nBuckets

theorem hashKey_lt {nBuckets : ℕ} (h : 0 < nBuckets) (key : CString) :
    hashKey nBuckets key < nBuckets := Nat.mod_lt _ h

/-- `struct hash_table`. -/
structure HashTable (V : Type) where
  /-- the entries of each bucket -/
  elementLists : List (List (CString × V))
  nentries : ℕ
  nonempty : 0 < elementLists.length
  placed : Chain.Placed (hashKey elementLists.length) elementLists
  counted : nentries = elementLists.flatten.length

namespace HashTable

variable {V : Type}

/-- `hash_table_new`. The source refuses a number of buckets that is not positive. -/
def new (nBuckets : ℕ) (h : 0 < nBuckets) : HashTable V where
  elementLists := List.replicate nBuckets []
  nentries := 0
  nonempty := by rwa [List.length_replicate]
  placed := by
    have hnil : ∀ i, (List.replicate nBuckets ([] : List (CString × V))).getD i [] = [] := by
      intro i
      rw [List.getD_eq_getElem?_getD, List.getElem?_replicate]
      split <;> rfl
    exact ⟨fun i e he => by rw [hnil] at he; contradiction, fun i => by rw [hnil]; simp⟩
  counted := by simp

/-- The caster makes all its tables with 509 buckets. -/
theorem zero_lt_509 : 0 < 509 := by decide

/-- `this->n_buckets`. -/
def nBuckets (this : HashTable V) : ℕ := this.elementLists.length

/-- `hash_table_get`. -/
def get (this : HashTable V) (key : CString) : Option V :=
  Chain.lookup (hashKey this.nBuckets) this.elementLists key

/-- `hash_table_add`; `none` stands for the error -1, a key that is there already. -/
def add (this : HashTable V) (key : CString) (value : V) : Option (HashTable V) :=
  if h : this.get key = none then
    some {
      elementLists := Chain.insert (hashKey this.nBuckets) this.elementLists key value
      nentries := this.nentries + 1
      nonempty := by rw [Chain.insert, List.length_modify]; exact this.nonempty
      placed := by
        rw [Chain.insert, List.length_modify]
        exact this.placed.insert (hashKey_lt this.nonempty key) h
      counted := by
        have hperm := Chain.flatten_insert_perm (hashKey_lt this.nonempty key) value
        rw [this.counted, ← List.length_cons, ← hperm.length_eq]
        rfl }
  else none

/-- `hash_table_del`; `none` stands for the error -1, a key that is not there. -/
def del (this : HashTable V) (key : CString) : Option (HashTable V) :=
  match h : this.get key with
  | none => none
  | some value => some {
      elementLists := Chain.erase (hashKey this.nBuckets) this.elementLists key
      nentries := this.nentries - 1
      nonempty := by rw [Chain.erase, List.length_modify]; exact this.nonempty
      placed := by
        rw [Chain.erase, List.length_modify]
        exact this.placed.erase key
      counted := by
        rw [this.counted, (Chain.flatten_erase_perm this.placed h).length_eq, List.length_cons,
          Nat.add_sub_cancel]
        rfl }

/-- What a value holds is changed. The tables store pointers, so this leaves the buckets alone. -/
def modify (this : HashTable V) (key : CString) (f : V → V) : HashTable V where
  elementLists := Chain.update this.elementLists key f
  nentries := this.nentries
  nonempty := by rw [Chain.update, List.length_map]; exact this.nonempty
  placed := by
    have h := this.placed.update key f
    rwa [Chain.update, List.length_map]
  counted := by rw [Chain.length_flatten_update, this.counted]

/-- The entries in the order of `HASH_FOREACH`. -/
def elements (this : HashTable V) : List (CString × V) := this.elementLists.flatten

/-- `hash_len`. -/
def len (this : HashTable V) : ℕ := this.nentries

variable {this that : HashTable V} {key key' : CString} {value : V}

theorem len_eq (this : HashTable V) : this.len = this.elements.length := this.counted

theorem get_new {n : ℕ} (h : 0 < n) (key : CString) : (new n h : HashTable V).get key = none := by
  refine Chain.lookup_eq_none_iff.mpr fun e he => ?_
  rw [new, List.getD_eq_getElem?_getD, List.getElem?_replicate] at he
  split at he <;> contradiction

theorem elements_new {n : ℕ} (h : 0 < n) : (new n h : HashTable V).elements = [] :=
  List.flatten_replicate_nil

/-- What `hash_table_add` has done where it succeeds. -/
theorem add_eq_some (h : this.add key value = some that) : this.get key = none ∧
    that.elementLists = Chain.insert (hashKey this.nBuckets) this.elementLists key value := by
  rw [add] at h
  split at h
  · next hget =>
    obtain rfl := Option.some.inj h
    exact ⟨hget, rfl⟩
  · contradiction

theorem get_add (h : this.add key value = some that) (key' : CString) :
    that.get key' = if key' = key then some value else this.get key' := by
  obtain ⟨-, hlists⟩ := add_eq_some h
  rw [get, nBuckets, hlists, Chain.insert, List.length_modify]
  exact Chain.lookup_insert (hashKey_lt this.nonempty key)

theorem get_eq_none_of_add (h : this.add key value = some that) : this.get key = none :=
  (add_eq_some h).1

theorem elements_add_perm (h : this.add key value = some that) :
    that.elements.Perm ((key, value) :: this.elements) := by
  rw [elements, (add_eq_some h).2]
  exact Chain.flatten_insert_perm (hashKey_lt this.nonempty key) value

theorem exists_add (h : this.get key = none) (value : V) : ∃ that, this.add key value = some that :=
  ⟨_, dif_pos h⟩

/-- What `hash_table_del` has done where it succeeds. -/
theorem del_eq_some (h : this.del key = some that) : (∃ value, this.get key = some value) ∧
    that.elementLists = Chain.erase (hashKey this.nBuckets) this.elementLists key := by
  rw [del] at h
  split at h
  · contradiction
  · next value hget =>
    obtain rfl := Option.some.inj h
    exact ⟨⟨value, hget⟩, rfl⟩

theorem exists_del (h : this.get key = some value) : ∃ that, this.del key = some that := by
  rw [del]
  split
  · next h' => rw [h] at h'; contradiction
  · exact ⟨_, rfl⟩

theorem get_of_del (h : this.del key = some that) : ∃ value, this.get key = some value :=
  (del_eq_some h).1

theorem get_del (h : this.del key = some that) (key' : CString) :
    that.get key' = if key' = key then none else this.get key' := by
  obtain ⟨-, hlists⟩ := del_eq_some h
  rw [get, nBuckets, hlists, Chain.erase, List.length_modify]
  exact Chain.lookup_erase this.placed

theorem get_modify (this : HashTable V) (key : CString) (f : V → V) (key' : CString) :
    (this.modify key f).get key' =
      if key' = key then (this.get key').map f else this.get key' := by
  rw [get, nBuckets]
  simp only [modify, Chain.update, List.length_map]
  exact Chain.lookup_update f

/-- **The entries visited are those of the map.** -/
theorem mem_elements (this : HashTable V) {key : CString} {value : V} :
    (key, value) ∈ this.elements ↔ this.get key = some value :=
  Chain.mem_flatten_iff this.placed

theorem find?_elements (this : HashTable V) (key : CString) :
    (this.elements.find? (·.1 = key)).map Prod.snd = this.get key := by
  cases hfind : this.elements.find? (·.1 = key) with
  | some e =>
    have hkey : e.1 = key := by simpa using List.find?_some hfind
    have hmem := List.mem_of_find?_eq_some hfind
    rw [Option.map_some, ← hkey, this.mem_elements.mp hmem]
  | none =>
    cases hget : this.get key with
    | none => rfl
    | some value =>
      have hne := List.find?_eq_none.mp hfind (key, value) (this.mem_elements.mpr hget)
      exact absurd (decide_eq_true rfl) hne

/-- Each key is visited once. -/
theorem nodup_elements (this : HashTable V) : (this.elements.map Prod.fst).Nodup :=
  Chain.nodup_keys_flatten this.placed

/-! ### Counters -/

/-- `hash_table_incr`, with the new value of the counter. -/
def incr (this : HashTable ℤ) (key : CString) : HashTable ℤ × ℤ :=
  match this.get key with
  | none => ((this.add key 1).getD this, 1)
  | some v => (this.modify key (· + 1), v + 1)

/-- `hash_table_decr`: a counter that reaches 0 is removed. `none` where the assertion fails. -/
def decr (this : HashTable ℤ) (key : CString) : Option (HashTable ℤ) :=
  match this.get key with
  | none => some this
  | some v =>
    if v - 1 < 0 then none
    else if v - 1 = 0 then (this.modify key (· - 1)).del key
    else some (this.modify key (· - 1))

theorem incr_snd (this : HashTable ℤ) (key : CString) :
    (this.incr key).2 = (this.get key).getD 0 + 1 := by
  rw [incr]
  cases this.get key <;> rfl

theorem get_incr (this : HashTable ℤ) (key key' : CString) :
    (this.incr key).1.get key' =
      if key' = key then some ((this.get key).getD 0 + 1) else this.get key' := by
  rw [incr]
  cases hget : this.get key with
  | none =>
    obtain ⟨that, hadd⟩ := exists_add hget 1
    dsimp only
    rw [hadd, Option.getD_some, get_add hadd]
    rfl
  | some v =>
    dsimp only
    rw [get_modify]
    split
    · next heq => rw [heq, hget]; rfl
    · rfl

/-- The assertion does not fail on a counter that is positive. -/
theorem exists_decr {this : HashTable ℤ} {key : CString} {v : ℤ} (hget : this.get key = some v)
    (hv : 0 < v) :
    ∃ that, this.decr key = some that ∧ ∀ key', that.get key' =
      if key' = key then (if v = 1 then none else some (v - 1)) else this.get key' := by
  have hmodify : (this.modify key (· - 1)).get key = some (v - 1) := by
    rw [get_modify, if_pos rfl, hget]
    rfl
  rw [decr, hget]
  dsimp only
  rw [if_neg (by omega)]
  split
  · next hzero =>
    obtain ⟨that, hdel⟩ := exists_del hmodify
    refine ⟨that, hdel, fun key' => ?_⟩
    rw [get_del hdel, get_modify, if_pos (by omega : v = 1)]
    split <;> rfl
  · next hzero =>
    refine ⟨_, rfl, fun key' => ?_⟩
    rw [if_neg (by omega : v ≠ 1)]
    split
    · next heq => rw [heq, hmodify]
    · next hne => rw [get_modify, if_neg hne]

end HashTable

end ChilopodCaster
