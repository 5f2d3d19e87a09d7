import Mathlib.Data.List.Basic

/-!
# Folds that may fail

The rules for `List.foldlM` in `Option` and in `Except`: what each step keeps, the whole fold keeps;
a loop can be reordered where its steps commute, and simulated step by step. And the rules for
`List.mapM`.
-/

namespace ChilopodCaster

namespace Fold

variable {α β : Type*} {f : β → α → Option β} {P : β → Prop}

/-- **A fold keeps what each step keeps**, on the elements that it goes through. -/
theorem preserves_of_mem {l : List α} (hstep : ∀ b, ∀ a ∈ l, ∀ b', P b → f b a = some b' → P b')
    {b b' : β} (hb : P b) (h : l.foldlM f b = some b') : P b' := by
  induction l generalizing b with
  | nil =>
    obtain rfl := Option.some.inj h
    exact hb
  | cons a l ih =>
    rw [List.foldlM_cons] at h
    obtain ⟨b₁, hb₁, h⟩ := Option.bind_eq_some_iff.mp h
    exact ih (fun b a ha => hstep b a (List.mem_cons_of_mem _ ha))
      (hstep b a List.mem_cons_self b₁ hb hb₁) h

/-- **A fold keeps what each step keeps.** -/
theorem preserves (hstep : ∀ b a b', P b → f b a = some b' → P b') (l : List α) {b b' : β}
    (hb : P b) (h : l.foldlM f b = some b') : P b' :=
  preserves_of_mem (fun b a _ => hstep b a) hb h

/-- A fold that succeeds has come to the end of each part. -/
theorem exists_foldlM_left {l l' : List α} {b b' : β} (h : (l ++ l').foldlM f b = some b') :
    ∃ c, l.foldlM f b = some c := by
  rw [List.foldlM_append] at h
  obtain ⟨c, hc, -⟩ := Option.bind_eq_some_iff.mp h
  exact ⟨c, hc⟩

/-! ### Reordering -/

/-- An element that commutes with those before it can come first. -/
theorem foldlM_middle {a : α} {u : List α}
    (hcomm : ∀ c ∈ u, ∀ b, ((f b a).bind fun b => f b c) = (f b c).bind fun b => f b a)
    (v : List α) (b : β) : (u ++ a :: v).foldlM f b = (a :: (u ++ v)).foldlM f b := by
  induction u generalizing b with
  | nil => rfl
  | cons c u ih =>
    have hc := hcomm c List.mem_cons_self b
    have ih' := fun b => ih (fun d hd => hcomm d (List.mem_cons_of_mem c hd)) b
    calc (c :: u ++ a :: v).foldlM f b
        = (f b c).bind fun b => (u ++ a :: v).foldlM f b := rfl
      _ = (f b c).bind fun b => (a :: (u ++ v)).foldlM f b := by rw [funext ih']
      _ = ((f b c).bind fun b => f b a).bind fun b => (u ++ v).foldlM f b :=
        (Option.bind_assoc ..).symm
      _ = ((f b a).bind fun b => f b c).bind fun b => (u ++ v).foldlM f b := by rw [hc]
      _ = (a :: (c :: u ++ v)).foldlM f b := Option.bind_assoc ..

/-- **A loop may run in any order that keeps the order of the elements marked**, if the others
commute with all. -/
theorem foldlM_reorder {p : α → Bool}
    (hcomm : ∀ a c, p a = false → ∀ b,
      ((f b a).bind fun b => f b c) = (f b c).bind fun b => f b a)
    {l l' : List α} (hperm : l.Perm l') (hfilter : l.filter p = l'.filter p) (b : β) :
    l.foldlM f b = l'.foldlM f b := by
  induction l generalizing l' b with
  | nil => rw [← hperm.nil_eq]
  | cons a l ih =>
    -- the first marked element of both lists is the same, so only unmarked ones come before it
    obtain ⟨u, v, rfl, hu⟩ : ∃ u v, l' = u ++ a :: v ∧ (p a = true → ∀ c ∈ u, ¬ p c = true) := by
      cases ha : p a with
      | true =>
        rw [List.filter_cons_of_pos ha] at hfilter
        obtain ⟨u, v, rfl, hu, -⟩ := List.filter_eq_cons_iff.mp hfilter.symm
        exact ⟨u, v, rfl, fun _ => hu⟩
      | false =>
        obtain ⟨u, v, rfl⟩ := List.append_of_mem (hperm.subset List.mem_cons_self)
        exact ⟨u, v, rfl, fun h => absurd h Bool.false_ne_true⟩
    have hrest : l.filter p = (u ++ v).filter p := by
      rw [List.filter_append, List.filter_cons, List.filter_cons] at hfilter
      rw [List.filter_append]
      by_cases ha : p a = true
      · rw [if_pos ha, if_pos ha, List.filter_eq_nil_iff.mpr (hu ha)] at hfilter
        rw [List.filter_eq_nil_iff.mpr (hu ha)]
        exact (List.cons.inj hfilter).2
      · rwa [if_neg ha, if_neg ha] at hfilter
    have hmiddle : (u ++ a :: v).foldlM f b = (a :: (u ++ v)).foldlM f b := by
      refine foldlM_middle (fun c hc b => ?_) v b
      cases ha : p a with
      | true => exact (hcomm c a (Bool.eq_false_iff.mpr (hu ha c hc)) b).symm
      | false => exact hcomm a c ha b
    rw [hmiddle, List.foldlM_cons, List.foldlM_cons]
    congr 1
    exact funext fun b => ih (hperm.trans List.perm_middle).cons_inv hrest b

/-- **A simulation of each step is one of the loop.** -/
theorem map_foldlM {γ : Type*} {f' : γ → α → Option γ} {g : β → γ}
    (h : ∀ b a, (f b a).map g = f' (g b) a) (l : List α) (b : β) :
    (l.foldlM f b).map g = l.foldlM f' (g b) := by
  induction l generalizing b with
  | nil => rfl
  | cons a l ih =>
    rw [List.foldlM_cons, List.foldlM_cons, ← h]
    cases hb : f b a with
    | none => rfl
    | some b' => exact ih b'

/-! ### Maps -/

theorem mapM_eq_map {f : α → Option β} {g : α → β} {l : List α} (h : ∀ a ∈ l, f a = some (g a)) :
    l.mapM f = some (l.map g) := by
  induction l with
  | nil => rfl
  | cons a l ih =>
    rw [List.mapM_cons, h a List.mem_cons_self, ih fun b hb => h b (List.mem_cons_of_mem a hb)]
    rfl

theorem mapM_eq_none_iff {f : α → Option β} {l : List α} :
    l.mapM f = none ↔ ∃ a ∈ l, f a = none := by
  induction l with
  | nil => simp
  | cons a l ih =>
    rw [List.mapM_cons, List.exists_mem_cons_iff, ← ih]
    cases f a with
    | none => simp
    | some b => cases l.mapM f <;> simp

/-- **A fold of which a part may fail**: that part can be done first. -/
theorem foldlM_eq_map_mapM {γ : Type*} {g : α → Option γ} {h : β → γ → β}
    (hf : ∀ b a, f b a = (g a).map (h b)) (l : List α) (b : β) :
    l.foldlM f b = (l.mapM g).map (List.foldl h b) := by
  induction l generalizing b with
  | nil => rfl
  | cons a l ih =>
    rw [List.foldlM_cons, List.mapM_cons, hf]
    cases g a with
    | none => rfl
    | some c =>
      rw [Option.map_some, Option.bind_eq_bind, Option.bind_some, ih]
      cases l.mapM g <;> rfl

variable {ε : Type*}

/-- **A fold in `Except` keeps what each step keeps.** -/
theorem preserves_except {f : β → α → Except ε β} (hstep : ∀ b a b', P b → f b a = .ok b' → P b')
    (l : List α) {b b' : β} (hb : P b) (h : l.foldlM f b = .ok b') : P b' := by
  induction l generalizing b with
  | nil =>
    obtain rfl := Except.ok.inj h
    exact hb
  | cons a l ih =>
    rw [List.foldlM_cons] at h
    cases hb₁ : f b a with
    | error e =>
      rw [hb₁] at h
      contradiction
    | ok b₁ =>
      rw [hb₁] at h
      exact ih (hstep b a b₁ hb hb₁) h

/-- **A map in `Except` has what each of its values has.** -/
theorem forall_mem_of_mapM_except {f : α → Except ε β} (hf : ∀ a b, f a = .ok b → P b) {l : List α}
    {bs : List β} (h : l.mapM f = .ok bs) : ∀ b ∈ bs, P b := by
  induction l generalizing bs with
  | nil =>
    obtain rfl := Except.ok.inj h
    intro b hb
    exact absurd hb List.not_mem_nil
  | cons a l ih =>
    rw [List.mapM_cons] at h
    cases hb : f a with
    | error e =>
      rw [hb] at h
      contradiction
    | ok b =>
      cases hl : l.mapM f with
      | error e =>
        rw [hb, hl] at h
        contradiction
      | ok bs' =>
        rw [hb, hl] at h
        obtain rfl := Except.ok.inj h
        rw [List.forall_mem_cons]
        exact ⟨hf a b hb, ih hl⟩

/-- A map in `Except` of a list that is not empty is not empty. -/
theorem mapM_except_ne_nil {f : α → Except ε β} {l : List α} (hne : l ≠ []) {bs : List β}
    (h : l.mapM f = .ok bs) : bs ≠ [] := by
  obtain ⟨a, l, rfl⟩ := List.exists_cons_of_ne_nil hne
  rw [List.mapM_cons] at h
  cases hb : f a with
  | error e =>
    rw [hb] at h
    contradiction
  | ok b =>
    cases hl : l.mapM f with
    | error e =>
      rw [hb, hl] at h
      contradiction
    | ok bs' =>
      rw [hb, hl] at h
      obtain rfl := Except.ok.inj h
      exact List.cons_ne_nil b bs'

end Fold

end ChilopodCaster
