import Mathlib.Data.List.Nodup
import Mathlib.Data.List.Perm.Basic
import Mathlib.Tactic.Common

/-!
# Hash tables with chains

A list of buckets, each one a list of entries, and a function that says in which bucket a key
belongs. What the buckets hold is a finite map from keys to values; going through them in order
visits each of its entries once.

## Main results

* `lookup_insert`, `lookup_erase`, `lookup_update` — the operations, on the map
* `mem_flatten_iff`, `nodup_keys_flatten` — the entries visited are those of the map, once each
* `flatten_insert_perm`, `flatten_erase_perm` — what an operation does to the entries visited
-/

namespace ChilopodCaster

namespace Chain

variable {K V : Type} (hash : K → ℕ)

/-- Each entry is in the bucket of its key, and no bucket holds two entries of one key. -/
structure Placed (L : List (List (K × V))) : Prop where
  hashed : ∀ h, ∀ e ∈ L.getD h [], hash e.1 = h
  nodup : ∀ h, ((L.getD h []).map Prod.fst).Nodup

/-- The value of a key. -/
def lookup [DecidableEq K] (L : List (List (K × V))) (k : K) : Option V :=
  ((L.getD (hash k) []).find? (·.1 = k)).map Prod.snd

/-- A new entry goes to the head of its bucket. -/
def insert (L : List (List (K × V))) (k : K) (v : V) : List (List (K × V)) :=
  L.modify (hash k) ((k, v) :: ·)

/-- The entry of a key is taken out of its bucket. -/
def erase [DecidableEq K] (L : List (List (K × V))) (k : K) : List (List (K × V)) :=
  L.modify (hash k) (·.eraseP (·.1 = k))

/-- The value of a key is changed where it is. -/
def update [DecidableEq K] (L : List (List (K × V))) (k : K) (f : V → V) : List (List (K × V)) :=
  L.map (·.map fun e => (e.1, if e.1 = k then f e.2 else e.2))

variable {hash} {L : List (List (K × V))} {k k' : K} {v : V}

theorem getD_modify (f : List (K × V) → List (K × V)) (hf : f [] = [] ∨ hash k < L.length) (h : ℕ) :
    (L.modify (hash k) f).getD h [] = if h = hash k then f (L.getD h []) else L.getD h [] := by
  rw [List.getD_eq_getElem?_getD, List.getElem?_modify, List.getD_eq_getElem?_getD]
  by_cases hh : h = hash k
  · subst hh
    cases hget : L[hash k]? with
    | some l => simp
    | none =>
      have hlen := List.getElem?_eq_none_iff.mp hget
      rcases hf with hf | hf
      · simp [hf]
      · omega
  · have hne : hash k ≠ h := fun h' => hh h'.symm
    simp [hh, hne]

theorem getD_insert (hk : hash k < L.length) (h : ℕ) :
    (insert hash L k v).getD h [] = if h = hash k then (k, v) :: L.getD h [] else L.getD h [] :=
  getD_modify _ (.inr hk) h

/-- Each key is visited once. -/
theorem nodup_keys_flatten (hL : Placed hash L) : (L.flatten.map Prod.fst).Nodup := by
  have hget : ∀ {h} (hlt : h < L.length), L.getD h [] = L[h] := fun hlt => by
    rw [List.getD_eq_getElem?_getD, List.getElem?_eq_getElem hlt, Option.getD_some]
  rw [List.map_flatten, List.nodup_flatten]
  constructor
  · intro l hl
    obtain ⟨l', hl', rfl⟩ := List.mem_map.mp hl
    obtain ⟨h, hlt, rfl⟩ := List.getElem_of_mem hl'
    rw [← hget hlt]
    exact hL.nodup h
  · rw [List.pairwise_iff_getElem]
    intro i j hi hj hij
    rw [List.length_map] at hi hj
    rw [List.getElem_map, List.getElem_map]
    intro x hxi hxj
    obtain ⟨e, he, rfl⟩ := List.mem_map.mp hxi
    obtain ⟨e', he', heq⟩ := List.mem_map.mp hxj
    have h1 := hL.hashed i e (by rwa [hget hi])
    have h2 := hL.hashed j e' (by rwa [hget hj])
    rw [heq] at h2
    omega

theorem modify_cons_perm {α : Type} (L : List (List α)) {h : ℕ} (hlt : h < L.length) (x : α) :
    (L.modify h (x :: ·)).flatten.Perm (x :: L.flatten) := by
  induction L generalizing h with
  | nil => simp at hlt
  | cons l L ih =>
    cases h with
    | zero => simp
    | succ h =>
      rw [List.modify_succ_cons, List.flatten_cons, List.flatten_cons]
      exact ((ih (by simpa using hlt)).append_left l).trans List.perm_middle

theorem flatten_insert_perm (hk : hash k < L.length) (v : V) :
    (insert hash L k v).flatten.Perm ((k, v) :: L.flatten) :=
  modify_cons_perm L hk (k, v)

theorem modify_perm {α : Type} (L : List (List α)) {h : ℕ} {x : α} {f : List α → List α}
    {l : List α} (hget : L[h]? = some l) (hf : l.Perm (x :: f l)) :
    L.flatten.Perm (x :: (L.modify h f).flatten) := by
  induction L generalizing h with
  | nil => simp at hget
  | cons l' L ih =>
    cases h with
    | zero =>
      obtain rfl : l' = l := by simpa using hget
      rw [List.modify_zero_cons, List.flatten_cons, List.flatten_cons]
      exact hf.append_right _
    | succ h =>
      rw [List.modify_succ_cons, List.flatten_cons, List.flatten_cons]
      exact ((ih (by simpa using hget)).append_left l').trans List.perm_middle

section Map

variable [DecidableEq K]

theorem getD_erase (h : ℕ) :
    (erase hash L k).getD h [] =
      if h = hash k then (L.getD h []).eraseP (·.1 = k) else L.getD h [] :=
  getD_modify (fun l => l.eraseP (·.1 = k)) (.inl rfl) h

theorem lookup_eq_some_iff (hL : Placed hash L) :
    lookup hash L k = some v ↔ (k, v) ∈ L.getD (hash k) [] := by
  have hnodup := hL.nodup (hash k)
  rw [lookup]
  generalize L.getD (hash k) [] = l at hnodup
  induction l with
  | nil => simp
  | cons e l ih =>
    rw [List.map_cons, List.nodup_cons] at hnodup
    by_cases he : e.1 = k
    · rw [List.find?_cons_of_pos (by simpa using he), Option.map_some, Option.some.injEq,
        List.mem_cons]
      constructor
      · rintro rfl
        exact .inl (by rw [← he])
      · rintro (h | h)
        · rw [← h]
        · exact absurd (List.mem_map_of_mem (f := Prod.fst) h) (he ▸ hnodup.1)
    · rw [List.find?_cons_of_neg (by simpa using he), List.mem_cons]
      exact (ih hnodup.2).trans ⟨.inr, fun h => h.resolve_left fun h' => he (by rw [← h'])⟩

theorem lookup_eq_none_iff : lookup hash L k = none ↔ ∀ e ∈ L.getD (hash k) [], e.1 ≠ k := by
  rw [lookup, Option.map_eq_none_iff, List.find?_eq_none]
  simp

theorem Placed.insert (hL : Placed hash L) (hk : hash k < L.length)
    (hnone : lookup hash L k = none) : Placed hash (insert hash L k v) := by
  constructor
  · intro h e he
    rw [getD_insert hk] at he
    split at he
    · next hh =>
      rcases List.mem_cons.mp he with rfl | he
      · exact hh.symm
      · exact hL.hashed h e he
    · exact hL.hashed h e he
  · intro h
    rw [getD_insert hk]
    split
    · next hh =>
      rw [List.map_cons, List.nodup_cons]
      refine ⟨fun hmem => ?_, hL.nodup h⟩
      obtain ⟨e, he, rfl⟩ := List.mem_map.mp hmem
      exact lookup_eq_none_iff.mp hnone e (hh ▸ he) rfl
    · exact hL.nodup h

theorem Placed.erase (hL : Placed hash L) (k : K) : Placed hash (erase hash L k) := by
  constructor
  · intro h e he
    rw [getD_erase] at he
    split at he
    · exact hL.hashed h e (List.mem_of_mem_eraseP he)
    · exact hL.hashed h e he
  · intro h
    rw [getD_erase]
    split
    · exact (hL.nodup h).sublist (List.eraseP_sublist.map _)
    · exact hL.nodup h

theorem lookup_insert (hk : hash k < L.length) :
    lookup hash (insert hash L k v) k' = if k' = k then some v else lookup hash L k' := by
  rw [lookup, getD_insert hk]
  by_cases hk' : k' = k
  · rw [if_pos (by rw [hk']), if_pos hk', List.find?_cons_of_pos (by simp [hk'])]
    rfl
  · rw [if_neg hk']
    split
    · rw [List.find?_cons_of_neg (by simpa using fun h => hk' h.symm)]
      rfl
    · rfl

theorem ne_of_mem_eraseP {l : List (K × V)} (hnodup : (l.map Prod.fst).Nodup) {e : K × V}
    (he : e ∈ l.eraseP (·.1 = k)) : e.1 ≠ k := by
  induction l with
  | nil => contradiction
  | cons a l ih =>
    rw [List.map_cons, List.nodup_cons] at hnodup
    by_cases ha : a.1 = k
    · rw [List.eraseP_cons_of_pos (by simpa using ha)] at he
      rintro rfl
      exact hnodup.1 (ha ▸ List.mem_map_of_mem he)
    · rw [List.eraseP_cons_of_neg (by simpa using ha), List.mem_cons] at he
      rcases he with rfl | he
      · exact ha
      · exact ih hnodup.2 he

theorem lookup_erase (hL : Placed hash L) :
    lookup hash (erase hash L k) k' = if k' = k then none else lookup hash L k' := by
  by_cases hk' : k' = k
  · subst hk'
    rw [if_pos rfl, lookup_eq_none_iff, getD_erase, if_pos rfl]
    exact fun e he => ne_of_mem_eraseP (hL.nodup _) he
  · rw [if_neg hk']
    refine Option.ext fun v => ?_
    rw [lookup_eq_some_iff (hL.erase k), lookup_eq_some_iff hL, getD_erase]
    split
    · exact List.mem_eraseP_of_neg (by simpa using hk')
    · rfl

theorem getD_update (f : V → V) (h : ℕ) :
    (update L k f).getD h [] =
      (L.getD h []).map fun e => (e.1, if e.1 = k then f e.2 else e.2) := by
  rw [update, List.getD_eq_getElem?_getD, List.getElem?_map, List.getD_eq_getElem?_getD]
  cases L[h]? <;> rfl

theorem Placed.update (hL : Placed hash L) (k : K) (f : V → V) : Placed hash (update L k f) := by
  constructor
  · intro h e he
    rw [getD_update] at he
    obtain ⟨e', he', rfl⟩ := List.mem_map.mp he
    exact hL.hashed h e' he'
  · intro h
    rw [getD_update, List.map_map]
    exact hL.nodup h

theorem length_flatten_update (k : K) (f : V → V) :
    (update L k f).flatten.length = L.flatten.length := by
  rw [update, List.length_flatten, List.length_flatten, List.map_map]
  congr 2
  funext l
  exact List.length_map _

theorem lookup_update (f : V → V) :
    lookup hash (update L k f) k' =
      if k' = k then (lookup hash L k').map f else lookup hash L k' := by
  rw [lookup, getD_update, List.find?_map, lookup]
  cases hfind : (L.getD (hash k') []).find? (·.1 = k') with
  | none =>
    have hfind' : List.find? ((fun x => decide (x.1 = k')) ∘
        fun e : K × V => (e.1, if e.1 = k then f e.2 else e.2)) (L.getD (hash k') []) = none :=
      hfind
    rw [hfind']
    split <;> rfl
  | some e =>
    have hfind' : List.find? ((fun x => decide (x.1 = k')) ∘
        fun e : K × V => (e.1, if e.1 = k then f e.2 else e.2)) (L.getD (hash k') []) = some e :=
      hfind
    have hkey : e.1 = k' := by simpa using List.find?_some hfind
    rw [hfind', Option.map_some, Option.map_some, hkey]
    split <;> rfl

/-- The entries visited are those of the map. -/
theorem mem_flatten_iff (hL : Placed hash L) : (k, v) ∈ L.flatten ↔ lookup hash L k = some v := by
  rw [lookup_eq_some_iff hL, List.mem_flatten]
  constructor
  · rintro ⟨l, hl, hmem⟩
    obtain ⟨h, hlt, rfl⟩ := List.getElem_of_mem hl
    have hget : L.getD h [] = L[h] := by
      rw [List.getD_eq_getElem?_getD, List.getElem?_eq_getElem hlt, Option.getD_some]
    have hhash : hash k = h := hL.hashed h (k, v) (by rwa [hget])
    rwa [hhash, hget]
  · intro hmem
    rw [List.getD_eq_getElem?_getD] at hmem
    cases hget : L[hash k]? with
    | none => rw [hget] at hmem; contradiction
    | some l =>
      rw [hget] at hmem
      exact ⟨l, List.mem_of_getElem? hget, hmem⟩

theorem flatten_erase_perm (hL : Placed hash L) (hv : lookup hash L k = some v) :
    L.flatten.Perm ((k, v) :: (erase hash L k).flatten) := by
  have hmem := (lookup_eq_some_iff hL).mp hv
  rw [List.getD_eq_getElem?_getD] at hmem
  cases hget : L[hash k]? with
  | none => rw [hget] at hmem; contradiction
  | some l =>
    rw [hget] at hmem
    refine modify_perm L hget ?_
    obtain ⟨e, l₁, l₂, -, he, hl, hl'⟩ := List.exists_of_eraseP (p := fun e => e.1 = k) hmem
      (decide_eq_true rfl)
    rw [Option.getD_some] at hl hl'
    have hkey : e = (k, e.2) := by rw [← of_decide_eq_true he]
    -- the entry taken out is the one looked up, as the bucket holds no other of its key
    have hsame : lookup hash L k = some e.2 := by
      rw [lookup_eq_some_iff hL, List.getD_eq_getElem?_getD, hget, Option.getD_some, ← hkey, hl]
      simp
    rw [hv, Option.some.injEq] at hsame
    rw [hl', hsame, ← hkey]
    nth_rewrite 1 [hl]
    exact List.perm_middle

end Map

end Chain

end ChilopodCaster
