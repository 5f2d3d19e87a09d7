import Mathlib.Logic.Function.Basic
import Mathlib.Algebra.Order.Group.Int

/-!
# Memory

A memory keeps something at some of its addresses. The others may not be accessed, and an access to
them has no result. A block of a memory is a list at an address: reading and changing what the
memory keeps there is reading and changing the list, and all else stays as it is.

## Main definitions

* `Memory` — what is kept at each address
* `Memory.modify` — change what is kept at an address
* `Memory.withBlock` — the memory with a list at an address

## Main results

* `Memory.modify_withBlock` — a change inside a block changes the list
* `Memory.exists_withBlock` — addresses that may be accessed are a block
-/

namespace ChilopodCaster

/-- What is kept at each address that may be accessed. -/
abbrev Memory (α : Type*) := ℤ → Option α

namespace Memory

variable {α : Type*} {m : Memory α} {a b : ℤ} {l l' : List α} {k n : ℕ} {x : α}

/-- Change what is kept at an address, if it may be accessed. -/
def modify (m : Memory α) (a : ℤ) (f : α → α) : Option (Memory α) :=
  (m a).map fun x => Function.update m a (some (f x))

/-- The memory with a list from an address on. -/
def withBlock (m : Memory α) (a : ℤ) (l : List α) : Memory α := fun b =>
  if a ≤ b ∧ b < a + l.length then l[(b - a).toNat]? else m b

theorem withBlock_add (h : k < l.length) : m.withBlock a l (a + k) = l[k]? := by
  rw [withBlock, if_pos (by omega), add_sub_cancel_left, Int.toNat_natCast]

theorem withBlock_of_lt (h : b < a) : m.withBlock a l b = m b :=
  if_neg fun hin => absurd hin.1 (Int.not_le.mpr h)

theorem withBlock_of_le (h : a + l.length ≤ b) : m.withBlock a l b = m b :=
  if_neg fun hin => absurd hin.2 (Int.not_lt.mpr h)

/-- **A change inside a block.** -/
theorem modify_withBlock (h : l[k]? = some x) (f : α → α) :
    (m.withBlock a l).modify (a + k) f = some (m.withBlock a (l.set k (f x))) := by
  obtain ⟨hk, -⟩ := List.getElem?_eq_some_iff.mp h
  rw [modify, withBlock_add hk, h, Option.map_some]
  congr 1
  funext b
  rcases eq_or_ne b (a + k) with rfl | hne
  · rw [Function.update_self, withBlock_add (by rwa [List.length_set]), List.getElem?_set_self hk]
  · rw [Function.update_of_ne hne, withBlock, withBlock, List.length_set]
    split
    · rw [List.getElem?_set_ne (by omega)]
    · rfl

/-- **Addresses that may be accessed** are a block. -/
theorem exists_withBlock (h : ∀ k < n, (m (a + k)).isSome) :
    ∃ l : List α, l.length = n ∧ m.withBlock a l = m := by
  refine ⟨List.ofFn fun k : Fin n => (m (a + k)).get (h k k.isLt), List.length_ofFn, ?_⟩
  funext b
  rw [withBlock, List.length_ofFn]
  split
  · next hin =>
    have hlt : (b - a).toNat < n := by omega
    have hat : a + ((b - a).toNat : ℤ) = b := by omega
    rw [List.getElem?_ofFn, dif_pos hlt, Option.some_get, hat]
  · rfl

end Memory

end ChilopodCaster
