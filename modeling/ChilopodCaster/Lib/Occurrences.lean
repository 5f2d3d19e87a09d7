import Mathlib.Algebra.Order.Ring.Nat
import Mathlib.Data.List.Basic
import Mathlib.Tactic.Common

/-!
# Occurrences that do not overlap

A pattern is looked for in a text from left to right. After an occurrence the search goes on behind
it, so that occurrences do not overlap and the leftmost ones are taken. They cut the text into
pieces. With the pattern between them the pieces are the text again, and with another string between
them they are the text with the pattern replaced: what stands in for the pattern is not searched.

## Main definitions

* `find` — the place of the first occurrence
* `Cut` — the pieces of a text
* `Replaced` — a text with the pattern replaced

## Main results

* `Cut.unique`, `exists_cut` — a text has one list of pieces
* `Cut.intercalate_eq` — the pieces, with the pattern between them
* `length_intercalate_add` — how the length changes
-/

namespace ChilopodCaster

namespace Occurrences

variable {α : Type*} {pat s rest chunk sep sep' : List α} {l l' : List (List α)}

/-- The place of the first occurrence of a pattern. -/
def find [DecidableEq α] (pat : List α) : List α → Option ℕ
  | [] => if pat = [] then some 0 else none
  | c :: s => if pat <+: c :: s then some 0 else (find pat s).map (· + 1)

/-- The pieces into which a text is cut by the occurrences of a pattern that do not overlap, from
the left. -/
inductive Cut (pat : List α) : List α → List (List α) → Prop
  /-- the pattern does not occur -/
  | last {s : List α} (h : ∀ i, ¬ pat <+: s.drop i) : Cut pat s [s]
  /-- the first occurrence is after the piece -/
  | piece {chunk rest : List α} {l : List (List α)}
      (h : ∀ i < chunk.length, ¬ pat <+: (chunk ++ (pat ++ rest)).drop i) (hl : Cut pat rest l) :
      Cut pat (chunk ++ (pat ++ rest)) (chunk :: l)

/-- The text `t` is the text `s` with `sep` for each occurrence of the pattern. -/
def Replaced (pat sep s t : List α) : Prop := ∃ l, Cut pat s l ∧ t = sep.intercalate l

/-! ### The first occurrence -/

/-- What a first occurrence is. -/
theorem find_eq_some [DecidableEq α] {i : ℕ} (h : find pat s = some i) :
    pat <+: s.drop i ∧ ∀ j < i, ¬ pat <+: s.drop j := by
  induction s generalizing i with
  | nil =>
    rw [find] at h
    split at h
    · next hpat =>
      obtain rfl := Option.some.inj h
      rw [hpat]
      exact ⟨List.nil_prefix, fun j hj => absurd hj (Nat.not_lt_zero j)⟩
    · contradiction
  | cons c s ih =>
    rw [find] at h
    split at h
    · next hpat =>
      obtain rfl := Option.some.inj h
      exact ⟨hpat, fun j hj => absurd hj (Nat.not_lt_zero j)⟩
    · next hpat =>
      obtain ⟨k, hk, rfl⟩ := Option.map_eq_some_iff.mp h
      obtain ⟨hat, hbefore⟩ := ih hk
      refine ⟨hat, fun j hj => ?_⟩
      cases j with
      | zero => exact hpat
      | succ j => exact hbefore j (Nat.lt_of_succ_lt_succ hj)

theorem find_eq_none [DecidableEq α] (h : find pat s = none) (i : ℕ) : ¬ pat <+: s.drop i := by
  induction s generalizing i with
  | nil =>
    rw [find] at h
    split at h
    · contradiction
    · next hpat =>
      rw [List.drop_nil]
      exact fun hat => hpat (List.prefix_nil.mp hat)
  | cons c s ih =>
    rw [find] at h
    split at h
    · contradiction
    · next hpat =>
      cases i with
      | zero => exact hpat
      | succ i => exact ih (Option.map_eq_none_iff.mp h) i

/-- The first occurrence is the only place with none before it. -/
theorem find_eq_some_of [DecidableEq α] {i : ℕ} (hat : pat <+: s.drop i)
    (hbefore : ∀ j < i, ¬ pat <+: s.drop j) : find pat s = some i := by
  cases hfind : find pat s with
  | none => exact absurd hat (find_eq_none hfind i)
  | some k =>
    obtain ⟨hk, hkbefore⟩ := find_eq_some hfind
    rcases lt_trichotomy i k with hlt | rfl | hlt
    · exact absurd hat (hkbefore i hlt)
    · rfl
    · exact absurd hk (hbefore k hlt)

theorem find_eq_none_of [DecidableEq α] (h : ∀ i, ¬ pat <+: s.drop i) : find pat s = none := by
  cases hfind : find pat s with
  | none => rfl
  | some k => exact absurd (find_eq_some hfind).1 (h k)

/-! ### Pieces -/

theorem prefix_drop_length (chunk pat rest : List α) :
    pat <+: (chunk ++ (pat ++ rest)).drop chunk.length := by
  rw [List.drop_left]
  exact List.prefix_append pat rest

theorem Cut.ne_nil (h : Cut pat s l) : l ≠ [] := by
  cases h with
  | last => exact List.cons_ne_nil _ _
  | piece => exact List.cons_ne_nil _ _

/-- **A text has one list of pieces.** -/
theorem Cut.unique (h : Cut pat s l) (h' : Cut pat s l') : l = l' := by
  induction h generalizing l' with
  | @last s hnot =>
    generalize hs : s = s' at h'
    cases h' with
    | last => rfl
    | @piece chunk rest l =>
      rw [hs] at hnot
      exact absurd (prefix_drop_length chunk pat rest) (hnot _)
  | @piece chunk rest l hbefore hl ih =>
    generalize hs : chunk ++ (pat ++ rest) = s' at h'
    cases h' with
    | last hnot =>
      rw [← hs] at hnot
      exact absurd (prefix_drop_length chunk pat rest) (hnot _)
    | @piece chunk' rest' l' hbefore' hl' =>
      have hle : chunk.length = chunk'.length := by
        rcases lt_trichotomy chunk.length chunk'.length with hlt | heq | hlt
        · exact absurd (hs ▸ prefix_drop_length chunk pat rest) (hbefore' _ hlt)
        · exact heq
        · exact absurd (hs ▸ prefix_drop_length chunk' pat rest') (hbefore _ hlt)
      obtain ⟨rfl, hrest⟩ := List.append_inj hs hle
      rw [List.append_cancel_left hrest] at ih
      rw [ih hl']

theorem exists_cut [DecidableEq α] (hpat : pat ≠ []) (s : List α) : ∃ l, Cut pat s l := by
  induction hn : s.length using Nat.strongRecOn generalizing s with
  | ind n ih =>
    cases hfind : find pat s with
    | none => exact ⟨[s], .last (find_eq_none hfind)⟩
    | some i =>
      obtain ⟨⟨rest, hrest⟩, hbefore⟩ := find_eq_some hfind
      have hs : s = s.take i ++ (pat ++ rest) := by rw [hrest, List.take_append_drop]
      have hpos := List.length_pos_iff.mpr hpat
      have hlength := congrArg List.length hs
      rw [List.length_append, List.length_append] at hlength
      obtain ⟨l, hl⟩ := ih rest.length (by omega) rest rfl
      rw [hs] at hbefore ⊢
      refine ⟨s.take i :: l, .piece (fun j hj => hbefore j ?_) hl⟩
      exact hj.trans_le (List.length_take_le i s)

/-- **The pieces, with the pattern between them**, are the text. -/
theorem Cut.intercalate_eq (h : Cut pat s l) : pat.intercalate l = s := by
  induction h with
  | last => exact List.intercalate_singleton
  | piece hbefore hl ih =>
    rw [List.intercalate_cons_of_ne_nil hl.ne_nil, ih, List.append_assoc]

/-- **How the length changes** with what stands between the pieces. -/
theorem length_intercalate_add (hl : l ≠ []) :
    (sep.intercalate l).length + (l.length - 1) * sep'.length =
      (sep'.intercalate l).length + (l.length - 1) * sep.length := by
  induction l with
  | nil => exact absurd rfl hl
  | cons chunk l ih =>
    rcases eq_or_ne l [] with rfl | hne
    · rw [List.intercalate_singleton, List.intercalate_singleton, List.length_singleton,
        Nat.sub_self, Nat.zero_mul, Nat.zero_mul]
    · obtain ⟨n, hn⟩ := Nat.exists_eq_succ_of_ne_zero (List.length_pos_iff.mpr hne).ne'
      have ih' := ih hne
      rw [hn, Nat.succ_sub_one] at ih'
      rw [List.intercalate_cons_of_ne_nil hne, List.intercalate_cons_of_ne_nil hne,
        List.length_cons, hn, Nat.add_sub_cancel, Nat.succ_mul, Nat.succ_mul]
      simp only [List.length_append]
      omega

end Occurrences

end ChilopodCaster
