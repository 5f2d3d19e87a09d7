import Mathlib.Data.List.Perm.Basic

/-!
# What the elements of a list hold

Each element of a list may hold one thing, given by a partial function. When an element is
replaced or taken away, the things held are counted again from those of the other elements.

## Main results

* `count_filterMap` — what is held, by one element and by the others
* `count_filterMap_modify`, `count_filterMap_set` — the same once this element has been replaced
* `countP_set_add` — how many elements are of some kind, once an element has been replaced
-/

namespace ChilopodCaster

namespace Holdings

variable {α β : Type*} [DecidableEq β] {l : List α} {i : ℕ} {a : α}

theorem forall_mem_modify {p : α → Prop} {f : α → α} (h : ∀ a ∈ l, p a) (hf : ∀ a, p a → p (f a)) :
    ∀ a ∈ l.modify i f, p a := by
  intro a ha
  obtain ⟨j, hj⟩ := List.mem_iff_getElem?.mp ha
  rw [List.getElem?_modify] at hj
  obtain ⟨b, hb, rfl⟩ := Option.map_eq_some_iff.mp hj
  have hpb := h b (List.mem_of_getElem? hb)
  split
  · exact hf b hpb
  · exact hpb

theorem count_filterMap (f : α → Option β) (h : l[i]? = some a) (x : β) :
    (l.filterMap f).count x =
      (f a).toList.count x + ((l.eraseIdx i).filterMap f).count x := by
  obtain ⟨hi, rfl⟩ := List.getElem?_eq_some_iff.mp h
  rw [← ((List.getElem_cons_eraseIdx_perm hi).filterMap f).count_eq, List.filterMap_cons]
  cases f l[i] with
  | none => simp
  | some b => rw [Option.toList_some, ← List.count_append, List.singleton_append]

theorem count_filterMap_modify (f : α → Option β) (g : α → α) (h : l[i]? = some a) (x : β) :
    ((l.modify i g).filterMap f).count x =
      (f (g a)).toList.count x + ((l.eraseIdx i).filterMap f).count x := by
  have hget : (l.modify i g)[i]? = some (g a) := by rw [List.getElem?_modify_eq, h]; rfl
  rw [count_filterMap f hget, List.eraseIdx_modify_of_eq]

theorem count_filterMap_set (f : α → Option β) {b : α} (h : l[i]? = some a) (x : β) :
    ((l.set i b).filterMap f).count x =
      (f b).toList.count x + ((l.eraseIdx i).filterMap f).count x := by
  have hget : (l.set i b)[i]? = some b := by
    rw [List.getElem?_set_self (List.getElem?_eq_some_iff.mp h).1]
  rw [count_filterMap f hget, List.eraseIdx_set_eq]

omit [DecidableEq β] in
theorem filterMap_modify_of_eq {f : α → Option β} {g : α → α} (h : ∀ a, f (g a) = f a) :
    (l.modify i g).filterMap f = l.filterMap f := by
  induction l generalizing i with
  | nil => simp
  | cons a l ih =>
    cases i with
    | zero => rw [List.modify_zero_cons, List.filterMap_cons, List.filterMap_cons, h]
    | succ i => rw [List.modify_succ_cons, List.filterMap_cons, List.filterMap_cons, ih]

theorem countP_set_add (p : α → Bool) {b : α} (h : l[i]? = some a) :
    (l.set i b).countP p + (if p a then 1 else 0) = l.countP p + if p b then 1 else 0 := by
  obtain ⟨hi, rfl⟩ := List.getElem?_eq_some_iff.mp h
  rw [List.countP_set hi]
  have hpos : p l[i] = true → 0 < l.countP p := fun hp =>
    List.countP_pos_iff.mpr ⟨_, List.getElem_mem hi, hp⟩
  by_cases hp : p l[i] = true
  · have := hpos hp
    rw [if_pos hp]
    omega
  · rw [if_neg hp]
    omega

end Holdings

end ChilopodCaster
