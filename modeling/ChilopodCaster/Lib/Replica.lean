import Mathlib.Logic.Function.Basic
import Mathlib.Tactic.Common

/-!
# Copies of a map that changes

A map changes key by key; its history is the list of changes, each with the new value of its key.
A copy of the map at some version may hold, for a key that changes later, any value at all: it
will be overwritten. That is what a copy satisfies when it is made of a snapshot that is newer
than the version it bears, or when changes are applied to it in order. Once no change is left, the
copy is the map.

## Main definitions

* `Replica.replay` — the map after a list of changes
* `Replica.Follows` — a copy that follows a history, at some version

## Main results

* `Replica.Follows.append`, `Replica.Follows.step`, `Replica.follows_snapshot` — how copies evolve
* `Replica.Follows.eq_replay` — a copy at the last version is the map
-/

namespace ChilopodCaster

namespace Replica

variable {K V : Type*} [DecidableEq K]

/-- The map after some changes. -/
def replay (h : List (K × Option V)) : K → Option V :=
  h.foldl (fun M c => Function.update M c.1 c.2) fun _ => none

/-- A copy of the map at version `s`: what is wrong in it is about to change. -/
def Follows (h : List (K × Option V)) (s : ℕ) (M : K → Option V) : Prop :=
  s ≤ h.length ∧ ∀ k, M k = replay (h.take s) k ∨ ∃ c ∈ h.drop s, c.1 = k

variable {h : List (K × Option V)} {s : ℕ} {M : K → Option V} {c : K × Option V}

theorem replay_concat (h : List (K × Option V)) (c : K × Option V) :
    replay (h ++ [c]) = Function.update (replay h) c.1 c.2 := by
  rw [replay, List.foldl_append]
  rfl

/-- A key keeps its value as long as no change is about it. -/
theorem replay_append_of_not_mem (h l : List (K × Option V)) {k : K} (hk : ∀ c ∈ l, c.1 ≠ k) :
    replay (h ++ l) k = replay h k := by
  induction l generalizing h with
  | nil => rw [List.append_nil]
  | cons c l ih =>
    rw [List.append_cons, ih _ fun c' hc' => hk c' (List.mem_cons_of_mem c hc'),
      replay_concat, Function.update_of_ne (hk c List.mem_cons_self).symm]

/-- One more change leaves a copy behind by one. -/
theorem Follows.append (hf : Follows h s M) (c : K × Option V) : Follows (h ++ [c]) s M := by
  obtain ⟨hs, hM⟩ := hf
  refine ⟨by rw [List.length_append]; omega, fun k => ?_⟩
  rw [List.take_append_of_le_length hs, List.drop_append_of_le_length hs]
  exact (hM k).imp_right fun ⟨c', hc', hk⟩ => ⟨c', List.mem_append_left _ hc', hk⟩

/-- **A snapshot** is a copy at any version before it. -/
theorem follows_snapshot (hs : s ≤ h.length) : Follows h s (replay h) := by
  refine ⟨hs, fun k => ?_⟩
  by_cases hk : ∃ c ∈ h.drop s, c.1 = k
  · exact .inr hk
  · left
    conv_lhs => rw [← List.take_append_drop s h]
    exact replay_append_of_not_mem _ _ fun c hc hck => hk ⟨c, hc, hck⟩

/-- **The next change** is applied to a copy. -/
theorem Follows.step (hf : Follows h s M) (hc : h[s]? = some c) :
    Follows h (s + 1) (Function.update M c.1 c.2) := by
  obtain ⟨hs, hM⟩ := hf
  have hlt : s < h.length := (List.getElem?_eq_some_iff.mp hc).1
  have htake : h.take (s + 1) = h.take s ++ [c] := by
    rw [List.take_add_one, hc]
    rfl
  have hdrop : h.drop s = c :: h.drop (s + 1) := by
    rw [List.drop_eq_getElem_cons hlt, (List.getElem?_eq_some_iff.mp hc).2]
  refine ⟨hlt, fun k => ?_⟩
  rw [htake, replay_concat]
  by_cases hk : k = c.1
  · left
    rw [hk, Function.update_self, Function.update_self]
  · rw [Function.update_of_ne hk, Function.update_of_ne hk]
    refine (hM k).imp_right fun ⟨c', hc', hck⟩ => ⟨c', ?_, hck⟩
    rw [hdrop] at hc'
    exact (List.mem_cons.mp hc').resolve_left fun heq => hk (by rw [← hck, heq])

/-- **A copy at the last version is the map.** -/
theorem Follows.eq_replay (hf : Follows h h.length M) : M = replay h := by
  funext k
  obtain ⟨-, hM⟩ := hf
  rcases hM k with hk | ⟨c, hc, -⟩
  · rwa [List.take_length] at hk
  · rw [List.drop_length] at hc
    contradiction

end Replica

end ChilopodCaster
