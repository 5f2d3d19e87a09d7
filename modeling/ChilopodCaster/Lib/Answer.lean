import Mathlib.Data.List.Basic
import Mathlib.Data.List.Induction

/-!
# Answers in a log

A log holds what has happened, oldest first. Some of its entries ask for something, and some end the
wait for it. An entry that ends a wait may have to meet a condition on what lies between.

## Main definitions

* `Awaiting` — something was asked for, and the wait has not ended
* `Answered` — each end of a wait meets the condition

## Main results

* `awaiting_concat`, `Answered.concat` — one more entry
* `Awaiting.of_append`, `Answered.append` — entries that neither ask nor end a wait
-/

namespace ChilopodCaster

namespace Answer

variable {α : Type*} {ask done : α → Prop} {ok : List α → α → Prop} {log new : List α} {a : α}

/-- Since something was last asked for the wait has not ended. -/
def Awaiting (ask done : α → Prop) (log : List α) : Prop :=
  ∃ before x between, log = before ++ x :: between ∧ ask x ∧ ∀ y ∈ between, ¬done y

/-- The first end of a wait after something was asked for meets the condition. -/
def Answered (ask done : α → Prop) (ok : List α → α → Prop) (log : List α) : Prop :=
  ∀ before x between y after, log = before ++ x :: (between ++ y :: after) → ask x →
    (∀ z ∈ between, ¬done z) → done y → ok between y

theorem not_awaiting_nil : ¬Awaiting ask done ([] : List α) := by
  rintro ⟨before, x, between, hlog, -⟩
  exact List.append_ne_nil_of_right_ne_nil before (List.cons_ne_nil x between) hlog.symm

theorem answered_nil : Answered ask done ok ([] : List α) := by
  intro before x between y after hlog
  exact absurd hlog.symm (List.append_ne_nil_of_right_ne_nil before (List.cons_ne_nil x _))

/-- Something is awaited after one more entry. -/
theorem awaiting_concat :
    Awaiting ask done (log ++ [a]) ↔ ask a ∨ Awaiting ask done log ∧ ¬done a := by
  constructor
  · rintro ⟨before, x, between, hlog, hx, hbetween⟩
    rcases List.eq_nil_or_concat' between with rfl | ⟨front, last, rfl⟩
    · obtain ⟨-, hlast⟩ := List.append_inj' hlog rfl
      obtain rfl := List.singleton_inj.mp hlast
      exact .inl hx
    · rw [← List.cons_append, ← List.append_assoc] at hlog
      obtain ⟨hfront, hlast⟩ := List.append_inj' hlog rfl
      obtain rfl := List.singleton_inj.mp hlast
      refine .inr ⟨⟨before, x, front, hfront, hx, fun y hy => ?_⟩, ?_⟩
      · exact hbetween y (List.mem_append_left _ hy)
      · exact hbetween a (List.mem_append_right _ (List.mem_singleton_self a))
  · rintro (ha | ⟨⟨before, x, between, rfl, hx, hbetween⟩, ha⟩)
    · exact ⟨log, a, [], rfl, ha, fun _ hy => absurd hy List.not_mem_nil⟩
    · refine ⟨before, x, between ++ [a], by rw [List.append_assoc, List.cons_append], hx, ?_⟩
      intro y hy
      rcases List.mem_append.mp hy with hy | hy
      · exact hbetween y hy
      · exact List.mem_singleton.mp hy ▸ ha

/-- **One more entry.** -/
theorem Answered.concat (h : Answered ask done ok log)
    (ha : done a → ∀ before x between, log = before ++ x :: between → ask x →
      (∀ y ∈ between, ¬done y) → ok between a) : Answered ask done ok (log ++ [a]) := by
  intro before x between y after hlog hx hbetween hy
  rcases List.eq_nil_or_concat' after with rfl | ⟨front, last, rfl⟩
  · rw [← List.cons_append, ← List.append_assoc] at hlog
    obtain ⟨hfront, hlast⟩ := List.append_inj' hlog rfl
    obtain rfl := List.singleton_inj.mp hlast
    exact ha hy before x between hfront hx hbetween
  · rw [← List.cons_append, ← List.append_assoc, ← List.cons_append, ← List.append_assoc] at hlog
    have hfront := (List.append_inj' hlog rfl).1
    rw [List.append_assoc, List.cons_append] at hfront
    exact h before x between y front hfront hx hbetween hy

/-- Entries that do not ask do not make anything awaited. -/
theorem Awaiting.of_append (h : Awaiting ask done (log ++ new)) (hnew : ∀ a ∈ new, ¬ask a) :
    Awaiting ask done log := by
  induction new using List.reverseRecOn with
  | nil => rwa [List.append_nil] at h
  | append_singleton new a ih =>
    rw [← List.append_assoc, awaiting_concat] at h
    have hlast := hnew a (List.mem_append_right _ (List.mem_singleton_self a))
    exact ih (h.resolve_left hlast).1 fun b hb => hnew b (List.mem_append_left _ hb)

/-- Entries that end no wait. -/
theorem Answered.append (h : Answered ask done ok log) (hnew : ∀ a ∈ new, ¬done a) :
    Answered ask done ok (log ++ new) := by
  induction new using List.reverseRecOn with
  | nil => rwa [List.append_nil]
  | append_singleton new a ih =>
    rw [← List.append_assoc]
    have hlast := hnew a (List.mem_append_right _ (List.mem_singleton_self a))
    exact (ih fun b hb => hnew b (List.mem_append_left _ hb)).concat fun ha => absurd ha hlast

/-- An entry other than the last one is followed by the last one. -/
theorem exists_concat_of_ne {before between : List α} {x : α}
    (h : log ++ [a] = before ++ x :: between) (hne : x ≠ a) :
    ∃ front, between = front ++ [a] := by
  rcases List.eq_nil_or_concat' between with rfl | ⟨front, last, rfl⟩
  · exact absurd (List.singleton_inj.mp (List.append_inj' h rfl).2).symm hne
  · rw [← List.cons_append, ← List.append_assoc] at h
    obtain rfl := List.singleton_inj.mp (List.append_inj' h rfl).2
    exact ⟨front, rfl⟩

end Answer

end ChilopodCaster
