import Mathlib.Data.List.Sort
import Mathlib.Tactic.Common

/-!
# The latest of each key, by rank

A list that holds, for every key, the latest value received, in decreasing order of rank. A value
takes the place of an earlier one of the same key and is refused by a later one. What the list holds
is then a function of the set of values received: neither their order nor their repetitions matter.

## Main definitions

* `put` — one value received
* `Holds` — a list holds the latest values of a set

## Main results

* `Holds.put` — one value received adds it to the set
* `Holds.eq` — the set determines the list
-/

namespace ChilopodCaster

namespace Latest

variable {α κ τ π : Type*} (key : α → κ) (date : α → τ) (rank : α → π)

section Definitions

variable [DecidableEq κ] [LinearOrder τ] [LinearOrder π]

/-- A value received: it goes before the first one of no higher rank. -/
def put (l : List α) (a : α) : List α :=
  match l.find? (key · = key a) with
  | none => l.orderedInsert (fun x y => rank x ≥ rank y) a
  | some r =>
    if date r < date a then
      (l.eraseP (key · = key a)).orderedInsert (fun x y => rank x ≥ rank y) a
    else l

end Definitions

/-- The latest value of its key. -/
def IsLatest [LT τ] (s : Set α) (a : α) : Prop :=
  a ∈ s ∧ ∀ b ∈ s, key b = key a → b ≠ a → date b < date a

/-- The list holds the latest values of the set, in decreasing order of rank. -/
structure Holds [LT τ] [LT π] (s : Set α) (l : List α) : Prop where
  sorted : l.Pairwise fun x y => rank x > rank y
  mem_iff : ∀ a, a ∈ l ↔ IsLatest key date s a
  covers : ∀ b ∈ s, ∃ a ∈ l, key a = key b

/-- The values of a key have distinct dates, those of different keys distinct ranks. -/
structure Distinct (s : Set α) : Prop where
  dates : ∀ a ∈ s, ∀ b ∈ s, key a = key b → date a = date b → a = b
  ranks : ∀ a ∈ s, ∀ b ∈ s, rank a = rank b → key a = key b

variable {key date rank} {s : Set α} {l l' : List α} {a : α}

theorem Distinct.mono {t : Set α} (h : Distinct key date rank t) (hst : s ⊆ t) :
    Distinct key date rank s where
  dates a ha b hb := h.dates a (hst ha) b (hst hb)
  ranks a ha b hb := h.ranks a (hst ha) b (hst hb)

theorem holds_nil [LT τ] [LT π] : Holds key date rank (∅ : Set α) [] where
  sorted := .nil
  mem_iff a := by simp [IsLatest]
  covers := by simp

variable [LinearOrder τ] [LinearOrder π]

/-- **The set determines the list.** -/
theorem Holds.eq (h : Holds key date rank s l) (h' : Holds key date rank s l') : l = l' := by
  have hirrefl : Std.Irrefl fun x y : α => rank x > rank y := ⟨fun x => lt_irrefl (rank x)⟩
  have hasymm : Std.Antisymm fun x y : α => rank x > rank y :=
    ⟨fun x y hxy hyx => absurd hxy (lt_asymm hyx)⟩
  refine List.Pairwise.eq_of_mem_iff h.sorted h'.sorted ?_
  intro a
  rw [h.mem_iff, h'.mem_iff]

/-- A value in the list is no earlier than any other of its key. -/
theorem Holds.date_le (h : Holds key date rank s l) {b c : α} (hb : b ∈ l) (hc : c ∈ s)
    (hkey : key c = key b) : date c ≤ date b := by
  rcases eq_or_ne c b with rfl | hne
  · exact le_rfl
  · exact (((h.mem_iff b).mp hb).2 c hc hkey hne).le

/-- Of each key the list has one value. -/
theorem Holds.eq_of_key_eq (h : Holds key date rank s l) {b c : α} (hb : b ∈ l) (hc : c ∈ l)
    (hkey : key c = key b) : c = b := by
  by_contra hne
  have hlt := ((h.mem_iff b).mp hb).2 c ((h.mem_iff c).mp hc).1 hkey hne
  exact absurd (h.date_le hc ((h.mem_iff b).mp hb).1 hkey.symm) (not_le_of_gt hlt)

/-- A new value is in the list, and those of the other keys, if it is later than those of its
own. -/
theorem Holds.orderedInsert (h : Holds key date rank s l) (hd : Distinct key date rank (insert a s))
    (hsub : l'.Sublist l) (hmem : ∀ b, b ∈ l' ↔ b ∈ l ∧ key b ≠ key a)
    (hlate : ∀ b ∈ s, key b = key a → date b < date a) :
    Holds key date rank (insert a s) (l'.orderedInsert (fun x y => rank x ≥ rank y) a) where
  sorted := by
    have htotal : Std.Total fun x y : α => rank x ≥ rank y := ⟨fun x y => le_total _ _⟩
    have htrans : IsTrans α fun x y => rank x ≥ rank y := ⟨fun _ _ _ hxy hyz => le_trans hyz hxy⟩
    have hge : l'.Pairwise fun x y => rank x ≥ rank y := (h.sorted.sublist hsub).imp le_of_lt
    have hne : (l'.orderedInsert (fun x y => rank x ≥ rank y) a).Pairwise
        fun x y => rank x ≠ rank y := by
      refine (List.perm_orderedInsert _ a l').symm.pairwise ?_ Ne.symm
      refine List.pairwise_cons.mpr ⟨?_, (h.sorted.sublist hsub).imp ne_of_gt⟩
      intro b hb hrank
      obtain ⟨hbl, hkey⟩ := (hmem b).mp hb
      have hbs : b ∈ s := ((h.mem_iff b).mp hbl).1
      exact hkey (hd.ranks a (.inl rfl) b (.inr hbs) hrank).symm
    exact ((hge.orderedInsert a l').and hne).imp fun hxy => lt_of_le_of_ne hxy.1 (Ne.symm hxy.2)
  mem_iff b := by
    rw [List.mem_orderedInsert, hmem, h.mem_iff]
    constructor
    · rintro (rfl | ⟨⟨hbs, hb⟩, hkey⟩)
      · refine ⟨.inl rfl, ?_⟩
        rintro c (rfl | hc) hck hne
        · contradiction
        · exact hlate c hc hck
      · refine ⟨.inr hbs, ?_⟩
        rintro c (rfl | hc) hck hne
        · exact absurd hck.symm hkey
        · exact hb c hc hck hne
    · rintro ⟨hbs, hb⟩
      by_cases hba : b = a
      · exact .inl hba
      · have hbs' : b ∈ s := hbs.resolve_left hba
        refine .inr ⟨⟨hbs', fun c hc => hb c (.inr hc)⟩, ?_⟩
        intro hkey
        exact lt_asymm (hlate b hbs' hkey) (hb a (.inl rfl) hkey.symm (Ne.symm hba))
  covers := by
    rintro b (rfl | hb)
    · exact ⟨b, (List.mem_orderedInsert _).mpr (.inl rfl), rfl⟩
    · obtain ⟨c, hc, hkey⟩ := h.covers b hb
      by_cases hca : key c = key a
      · exact ⟨a, (List.mem_orderedInsert _).mpr (.inl rfl), hca.symm.trans hkey⟩
      · exact ⟨c, (List.mem_orderedInsert _).mpr (.inr ((hmem c).mpr ⟨hc, hca⟩)), hkey⟩

/-- A new value that is no later than one of the list changes nothing. -/
theorem Holds.insert_of_le (h : Holds key date rank s l)
    (hd : Distinct key date rank (insert a s)) {r : α} (hr : r ∈ l) (hkey : key r = key a)
    (hle : date a ≤ date r) : Holds key date rank (insert a s) l where
  sorted := h.sorted
  mem_iff b := by
    have hrs : r ∈ s := ((h.mem_iff r).mp hr).1
    rw [h.mem_iff]
    constructor
    · rintro ⟨hbs, hb⟩
      refine ⟨.inr hbs, ?_⟩
      rintro c (rfl | hc) hck hne
      · obtain rfl := h.eq_of_key_eq ((h.mem_iff b).mpr ⟨hbs, hb⟩) hr (hkey.trans hck)
        refine lt_of_le_of_ne hle ?_
        intro heq
        exact hne (hd.dates c (.inl rfl) r (.inr hbs) hck heq)
      · exact hb c hc hck hne
    · rintro ⟨hbs, hb⟩
      refine ⟨?_, fun c hc => hb c (.inr hc)⟩
      rcases hbs with rfl | hbs
      · by_cases hrb : r = b
        · exact hrb ▸ hrs
        · exact absurd (hb r (.inr hrs) hkey hrb) (not_lt_of_ge hle)
      · exact hbs
  covers := by
    rintro b (rfl | hb)
    · exact ⟨r, hr, hkey⟩
    · exact h.covers b hb

/-- Of elements two of which cannot satisfy a predicate, none does once the first is erased. -/
theorem not_of_mem_eraseP {p : α → Bool}
    (h : l.Pairwise fun a b => ¬ (p a ∧ p b)) (ha : a ∈ l.eraseP p) : ¬ p a := by
  induction l with
  | nil => contradiction
  | cons b l ih =>
    obtain ⟨hb, hl⟩ := List.pairwise_cons.mp h
    cases hp : p b with
    | true =>
      rw [List.eraseP_cons_of_pos hp] at ha
      exact fun hpa => hb a ha ⟨hp, hpa⟩
    | false =>
      rw [List.eraseP_cons_of_neg (by simp [hp])] at ha
      rcases List.mem_cons.mp ha with rfl | ha
      · simp [hp]
      · exact ih hl ha

/-- **One value received adds it to the set.** -/
theorem Holds.put [DecidableEq κ] (h : Holds key date rank s l)
    (hd : Distinct key date rank (insert a s)) :
    Holds key date rank (insert a s) (put key date rank l a) := by
  rw [Latest.put]
  cases hfind : l.find? (key · = key a) with
  | none =>
    have hnone (b : α) (hb : b ∈ l) : key b ≠ key a := by
      simpa using List.find?_eq_none.mp hfind b hb
    refine h.orderedInsert hd (List.Sublist.refl l) ?_ ?_
    · intro b
      exact ⟨fun hb => ⟨hb, hnone b hb⟩, And.left⟩
    · intro b hb hkey
      obtain ⟨c, hc, hck⟩ := h.covers b hb
      exact absurd (hck.trans hkey) (hnone c hc)
  | some r =>
    have hr : r ∈ l := List.mem_of_find?_eq_some hfind
    have hkey : key r = key a := by simpa using List.find?_some hfind
    dsimp only
    split
    · next hlt =>
      refine h.orderedInsert hd List.eraseP_sublist ?_ ?_
      · intro b
        constructor
        · intro hb
          refine ⟨List.eraseP_subset hb, ?_⟩
          have hpair : l.Pairwise fun b c =>
              ¬ (decide (key b = key a) ∧ decide (key c = key a)) := by
            refine List.Pairwise.imp_of_mem ?_ h.sorted
            intro b c hb hc hbc hkeys
            simp only [decide_eq_true_eq] at hkeys
            rw [h.eq_of_key_eq hb hc (hkeys.2.trans hkeys.1.symm)] at hbc
            exact lt_irrefl _ hbc
          simpa using not_of_mem_eraseP hpair hb
        · rintro ⟨hb, hne⟩
          exact (List.mem_eraseP_of_neg (by simpa using hne)).mpr hb
      · intro b hb hbk
        exact lt_of_le_of_lt (h.date_le hr hb (hbk.trans hkey.symm)) hlt
    · next hlt => exact h.insert_of_le hd hr hkey (not_lt.mp hlt)

end Latest

end ChilopodCaster
