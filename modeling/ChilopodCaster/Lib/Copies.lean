import Mathlib.Data.List.Basic

/-!
# Lists that are copied

A list is copied element by element. The copy of an element can be another element, or be lost. The
first element with some property is copied in another way than the others.

The copy is what each element should have become only if that is so of each element: as soon as one
is lost, the copy is too short.

## Main definitions

* `tagFirst` — the elements of a list, and which is the first with a property

## Main results

* `filterMap_eq_map_iff` — when a copy is what it should be
* `filter_copies` — copies of the elements of one kind
-/

namespace ChilopodCaster

namespace Copies

/-- The elements of a list, and which is the first that has a property. -/
def tagFirst {α : Type} (p : α → Bool) : List α → List (Bool × α)
  | [] => []
  | a :: l => if p a then (true, a) :: l.map (Prod.mk false) else (false, a) :: tagFirst p l

theorem filterMap_eq_map_iff {α β : Type} {g : α → Option β} {f : α → β} {l : List α} :
    l.filterMap g = l.map f ↔ ∀ a ∈ l, g a = some (f a) := by
  constructor
  · intro h
    induction l with
    | nil =>
      intro a ha
      exact absurd ha List.not_mem_nil
    | cons a l ih =>
      rw [List.filterMap_cons, List.map_cons] at h
      cases hg : g a with
      | none =>
        rw [hg] at h
        change l.filterMap g = f a :: l.map f at h
        have hlength := congrArg List.length h
        have hle := List.length_filterMap_le g l
        rw [List.length_cons, List.length_map] at hlength
        omega
      | some b =>
        rw [hg] at h
        change b :: l.filterMap g = f a :: l.map f at h
        obtain ⟨rfl, htail⟩ := List.cons_eq_cons.mp h
        exact List.forall_mem_cons.mpr ⟨hg, ih htail⟩
  · intro h
    rw [← List.filterMap_eq_map]
    exact List.filterMap_congr h

/-- Where the first element with a property is. -/
theorem tagFirst_cases {α : Type} (p : α → Bool) (l : List α) :
    (l.find? p = none ∧ tagFirst p l = l.map (Prod.mk false)) ∨
      ∃ (pre : List α) (m : α) (post : List α), l = pre ++ m :: post ∧
        (∀ a ∈ pre, ¬ p a = true) ∧ p m = true ∧ l.find? p = some m ∧
        tagFirst p l = pre.map (Prod.mk false) ++ (true, m) :: post.map (Prod.mk false) := by
  induction l with
  | nil => exact Or.inl ⟨rfl, rfl⟩
  | cons a l ih =>
    by_cases ha : p a = true
    · refine Or.inr ⟨[], a, l, rfl, fun b hb => absurd hb List.not_mem_nil, ha, ?_, ?_⟩
      · exact List.find?_cons_of_pos ha
      · rw [tagFirst, if_pos ha]
        rfl
    · rw [List.find?_cons_of_neg ha, tagFirst, if_neg ha]
      rcases ih with ⟨hnone, htag⟩ | ⟨pre, m, post, rfl, hpre, hm, hfind, htag⟩
      · exact Or.inl ⟨hnone, by rw [htag, List.map_cons]⟩
      · exact Or.inr ⟨a :: pre, m, post, rfl, List.forall_mem_cons.mpr ⟨ha, hpre⟩, hm, hfind,
          by rw [htag]; rfl⟩

theorem map_snd_tagFirst {α : Type} (p : α → Bool) (l : List α) :
    (tagFirst p l).map Prod.snd = l := by
  have hmap : ∀ l : List α, (l.map (Prod.mk false)).map Prod.snd = l := by
    intro l
    rw [List.map_map]
    exact List.map_id l
  rcases tagFirst_cases p l with ⟨-, htag⟩ | ⟨pre, m, post, rfl, -, -, -, htag⟩
  · rw [htag, hmap]
  · rw [htag, List.map_append, List.map_cons, hmap, hmap]

theorem exists_mem_tagFirst {α : Type} {p : α → Bool} {l : List α} {a : α} (ha : a ∈ l) :
    ∃ b, (b, a) ∈ tagFirst p l := by
  rw [← map_snd_tagFirst p l] at ha
  obtain ⟨⟨b, a⟩, hx, rfl⟩ := List.mem_map.mp ha
  exact ⟨b, hx⟩

theorem mem_of_mem_map_mk {α : Type} {b : Bool} {l : List α} {x : Bool × α}
    (h : x ∈ l.map (Prod.mk b)) : x.1 = b ∧ x.2 ∈ l := by
  obtain ⟨a, ha, rfl⟩ := List.mem_map.mp h
  exact ⟨rfl, ha⟩

theorem of_mem_tagFirst {α : Type} {p : α → Bool} {l : List α} {a : α}
    (h : (true, a) ∈ tagFirst p l) : p a = true := by
  rcases tagFirst_cases p l with ⟨-, htag⟩ | ⟨pre, m, post, rfl, -, hm, -, htag⟩
  · rw [htag] at h
    exact absurd (mem_of_mem_map_mk h).1.symm Bool.false_ne_true
  · rw [htag] at h
    rcases List.mem_append.mp h with h | h
    · exact absurd (mem_of_mem_map_mk h).1.symm Bool.false_ne_true
    · rcases List.mem_cons.mp h with h | h
      · rwa [(Prod.mk.inj h).2]
      · exact absurd (mem_of_mem_map_mk h).1.symm Bool.false_ne_true

/-- A list is copied, and each copy is of the same kind. Then the copies of one kind are the copies
of the elements of that kind. -/
theorem filter_copies {α : Type} (p : α → Bool) {G : Bool × α → Option α}
    {l : List (Bool × α)} (hkind : ∀ x ∈ l, ∀ a ∈ G x, p a = p x.2) :
    (l.filterMap G).filter p = (l.filter fun x => p x.2).filterMap G := by
  rw [List.filter_filterMap, List.filterMap_filter]
  refine List.filterMap_congr fun x hx => ?_
  cases hG : G x with
  | none => exact (ite_self none).symm
  | some a =>
    rw [Option.filter_some, hkind x hx a hG]

end Copies

end ChilopodCaster
