import Mathlib.Data.List.DropRight

/-!
# Parts joined with exactly one separator

A part follows another with one separator between them, however many separators the first ends with
and the second starts with. Parts are joined from left to right, so that a part made of separators
leaves a text that ends with one.

A program that only ever adds to its text cannot take back what it wrote: once the text is not the
start of any continuation of the parts joined so far, it never becomes the parts joined.

## Main definitions

* `trimStart`, `trimEnd` — a part without the separators at one of its ends
* `attach`, `joined` — two parts, and any number of parts, joined
* `Blocked` — a text that has gone wrong for good

## Main results

* `Blocked.foldl_ne` — a text that has gone wrong is not the parts joined
-/

namespace ChilopodCaster

namespace Separated

variable {α : Type*} [DecidableEq α] (sep : α)

/-- A part without the separators that it starts with. -/
def trimStart (b : List α) : List α := b.dropWhile (· = sep)

/-- A part without the separators that it ends with. -/
def trimEnd (a : List α) : List α := a.rdropWhile (· = sep)

/-- A part after another, with exactly one separator between. -/
def attach (a b : List α) : List α := trimEnd sep a ++ sep :: trimStart sep b

/-- The parts, with exactly one separator between one and the next. -/
def joined : List (List α) → List α
  | [] => []
  | a :: l => l.foldl (attach sep) a

variable {sep}

/-! ### Trimming -/

theorem head?_trimStart (b : List α) : (trimStart sep b).head? ≠ some sep := by
  intro h
  have hnot := List.head?_dropWhile_not (fun x => decide (x = sep)) b
  rw [trimStart] at h
  rw [h] at hnot
  exact of_decide_eq_false hnot rfl

theorem trimStart_of_head? {b : List α} (h : b.head? ≠ some sep) : trimStart sep b = b := by
  cases b with
  | nil => rfl
  | cons x b =>
    have hx : ¬ decide (x = sep) = true := by
      rw [decide_eq_true_iff]
      rintro rfl
      exact h rfl
    exact List.dropWhile_cons_of_neg hx

theorem trimStart_cons (b : List α) : trimStart sep (sep :: b) = trimStart sep b :=
  List.dropWhile_cons_of_pos (decide_eq_true rfl)

theorem trimEnd_concat (a : List α) : trimEnd sep (a ++ [sep]) = trimEnd sep a :=
  List.rdropWhile_concat_pos _ _ _ (decide_eq_true rfl)

theorem trimEnd_of_getLast? {a : List α} (h : a.getLast? ≠ some sep) : trimEnd sep a = a := by
  rcases a.eq_nil_or_concat with rfl | ⟨a, x, rfl⟩
  · rfl
  · have hx : ¬ decide (x = sep) = true := by
      rw [decide_eq_true_iff]
      rintro rfl
      exact h (by rw [List.concat_eq_append, List.getLast?_concat])
    rw [List.concat_eq_append]
    exact List.rdropWhile_concat_neg _ _ _ hx

theorem getLast?_trimEnd (a : List α) : (trimEnd sep a).getLast? ≠ some sep := by
  intro h
  obtain ⟨t, ht⟩ := List.getLast?_eq_some_iff.mp h
  have htrim : trimEnd sep (trimEnd sep a) = trimEnd sep a := List.rdropWhile_idempotent _ _
  rw [ht, trimEnd_concat] at htrim
  have hstarts : trimEnd sep t <+: t := List.rdropWhile_prefix _ t
  have hle := hstarts.length_le
  rw [htrim, List.length_append, List.length_singleton] at hle
  omega

theorem trimEnd_trimEnd (a : List α) : trimEnd sep (trimEnd sep a) = trimEnd sep a :=
  trimEnd_of_getLast? (getLast?_trimEnd a)

/-- What is trimmed is a run of separators. -/
theorem exists_eq_trimEnd_append (sep : α) (a : List α) :
    ∃ n, a = trimEnd sep a ++ List.replicate n sep := by
  induction a using List.reverseRecOn with
  | nil => exact ⟨0, rfl⟩
  | append_singleton a x ih =>
    by_cases hx : x = sep
    · obtain ⟨n, hn⟩ := ih
      refine ⟨n + 1, ?_⟩
      rw [hx, trimEnd_concat, List.replicate_succ', ← List.append_assoc, ← hn]
    · refine ⟨0, ?_⟩
      rw [trimEnd_of_getLast?, List.replicate_zero, List.append_nil]
      rw [List.getLast?_concat]
      exact fun h => hx (Option.some.inj h)

/-- A part that does not end with two separators ends with one, or with none. -/
theorem eq_trimEnd_append {a : List α} (h : ¬ [sep, sep] <:+ a) :
    a = trimEnd sep a ++ if a.getLast? = some sep then [sep] else [] := by
  obtain ⟨n, hn⟩ := exists_eq_trimEnd_append sep a
  rcases n with - | - | n
  · rw [List.replicate_zero, List.append_nil] at hn
    rw [if_neg (by rw [hn]; exact getLast?_trimEnd a), List.append_nil]
    exact hn
  · rw [if_pos]
    · exact hn
    · rw [hn]
      exact List.getLast?_concat
  · refine absurd ⟨trimEnd sep a ++ List.replicate n sep, ?_⟩ h
    rw [List.append_assoc]
    nth_rewrite 2 [hn]
    rw [List.replicate_add n 2]
    rfl

/-- A part that does not start with a separator is trimmed on its own. -/
theorem trimEnd_append_cons (a : List α) {x : α} (hx : x ≠ sep) (b : List α) :
    ∃ t, trimEnd sep (a ++ x :: b) = a ++ x :: t := by
  induction b using List.reverseRecOn with
  | nil =>
    refine ⟨[], trimEnd_of_getLast? ?_⟩
    rw [List.getLast?_concat]
    exact fun h => hx (Option.some.inj h)
  | append_singleton b y ih =>
    by_cases hy : y = sep
    · obtain ⟨t, ht⟩ := ih
      refine ⟨t, ?_⟩
      rw [hy, ← List.cons_append, ← List.append_assoc, trimEnd_concat, ht]
    · refine ⟨b ++ [y], trimEnd_of_getLast? ?_⟩
      rw [← List.cons_append, ← List.append_assoc, List.getLast?_concat]
      exact fun h => hy (Option.some.inj h)

/-! ### Texts that have gone wrong -/

/-- What follows the parts joined so far starts with a separator, and then something else. The text
is not the start of that, whatever follows. -/
def Blocked (sep : α) (r s : List α) : Prop :=
  ∀ t : List α, t.head? ≠ some sep → ¬ r <+: trimEnd sep s ++ sep :: t

/-- Another part does not help. -/
theorem Blocked.attach {r r' s : List α} (h : Blocked sep r s) (hr : r <+: r') (b : List α) :
    r' ≠ attach sep s b ∧ Blocked sep r' (attach sep s b) := by
  refine ⟨?_, fun t ht hstarts => ?_⟩
  · rintro rfl
    exact h _ (head?_trimStart b) hr
  · have hstarts := hr.trans hstarts
    rw [Separated.attach] at hstarts
    cases hb : trimStart sep b with
    | nil =>
      rw [hb, trimEnd_concat, trimEnd_trimEnd] at hstarts
      exact h t ht hstarts
    | cons x b' =>
      have hx : x ≠ sep := by
        rintro rfl
        have hhead : (trimStart x b).head? ≠ some x := head?_trimStart b
        rw [hb] at hhead
        exact hhead rfl
      obtain ⟨t', ht'⟩ := trimEnd_append_cons (trimEnd sep s ++ [sep]) hx b'
      rw [List.append_assoc, List.singleton_append] at ht'
      rw [hb, ht', List.append_assoc, List.append_assoc] at hstarts
      exact h (x :: (t' ++ sep :: t)) (fun hhead => hx (Option.some.inj hhead)) hstarts

/-- **A text that has gone wrong** is not the parts joined, however it goes on. -/
theorem Blocked.foldl_ne {f : List α → List α → List α} (hf : ∀ r b, r <+: f r b)
    {r r' s : List α} (h : Blocked sep r s) (hr : r <+: r') (b : List α) (l : List (List α)) :
    l.foldl f r' ≠ l.foldl (Separated.attach sep) (Separated.attach sep s b) := by
  induction l generalizing r r' s b with
  | nil => exact (h.attach hr b).1
  | cons c l ih => exact ih (h.attach hr b).2 (hf r' c) c

/-- Two separators in a row after what was joined so far. -/
theorem blocked_of_two {r s : List α} (h : trimEnd sep s ++ [sep, sep] <+: r) :
    Blocked sep r s := by
  intro t ht hstarts
  have htwo : [sep] <+: t := by
    have hboth := (List.prefix_append_right_inj _).mp (h.trans hstarts)
    exact (List.prefix_cons_inj sep).mp hboth
  obtain ⟨u, rfl⟩ := htwo
  exact ht rfl

/-- Two separators in a row at the end of a part that another one follows. -/
theorem blocked_of_suffix {r : List α} (h : [sep, sep] <:+ r) : Blocked sep r r := by
  obtain ⟨a, rfl⟩ := h
  refine blocked_of_two ?_
  have htrim : trimEnd sep (a ++ [sep, sep]) = trimEnd sep a := by
    rw [← List.singleton_append (x := sep) (l := [sep]), ← List.append_assoc, trimEnd_concat,
      trimEnd_concat]
  obtain ⟨n, hn⟩ := exists_eq_trimEnd_append sep a
  rw [htrim]
  nth_rewrite 2 [hn]
  rw [List.append_assoc, List.prefix_append_right_inj]
  have htwo : [sep, sep] = List.replicate 2 sep := rfl
  rw [htwo, ← List.replicate_add, Nat.add_comm n 2, List.replicate_add]
  exact List.prefix_append _ _

end Separated

end ChilopodCaster
