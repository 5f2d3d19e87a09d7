import Mathlib.Data.List.Induction
import Mathlib.Data.Nat.Notation

/-!
# Texts that arrive in pieces

A text is a sequence of units, and it arrives in pieces, which can end anywhere. A reader is called
with each piece. It keeps what is there of a unit until the unit is whole; then it works the unit
off and goes on with the next.

What the reader is does not matter here. `feed s y` is what a call with the piece `y` comes to, in
the state `s`, and `st k p` is the state once `k` units are read and the part `p` of the next has
arrived. Two conditions on a call, that it adds to a part of a unit or that it completes the unit,
say that such states describe the reader. Then its state is a function of the text that has arrived.

## Main definitions

* `Pieces.cut` — where the beginning of a text ends: the whole units in it, and the part of the next
* `Pieces.Reads`, `Pieces.ReadsTo` — a reader of the units of a text, from one state to another

## Main results

* `Pieces.Reads.feed_part`, `Pieces.Reads.feed_whole` — a call that ends inside the text, and one
  that reaches its end
* `Pieces.Reads.foldlM_eq` — what is read does not depend on the pieces
* `Pieces.ReadsTo.pieces_eq`, `Pieces.ReadsTo.foldlM` — readers from one state to another, one after
  the other
* `Pieces.ReadsTo.pieces_last` — a text whose last unit ends the reading
-/

namespace ChilopodCaster

namespace Pieces

variable {α σ γ : Type}

/-- Where the beginning of a text ends: how many units are in it, and what there is of the next. -/
def cut : List (List α) → List α → ℕ × List α
  | [], x => (0, x)
  | u :: us, x =>
    if u.length ≤ x.length then ((cut us (x.drop u.length)).1 + 1, (cut us (x.drop u.length)).2)
    else (0, x)

variable {units : List (List α)} {u x y z : List α}

theorem cut_cons_append (us : List (List α)) (x : List α) :
    cut (u :: us) (u ++ x) = ((cut us x).1 + 1, (cut us x).2) := by
  rw [cut, if_pos (by rw [List.length_append]; exact Nat.le_add_right _ _), List.drop_left]

theorem cut_cons_of_lt (us : List (List α)) (h : x.length < u.length) :
    cut (u :: us) x = (0, x) := by
  rw [cut, if_neg (Nat.not_le_of_lt h)]

theorem cut_nil (h : ∀ u ∈ units, u ≠ []) : cut units [] = (0, []) := by
  cases units with
  | nil => rfl
  | cons u us => exact cut_cons_of_lt us (List.length_pos_iff.mpr (h u List.mem_cons_self))

theorem cut_flatten (units : List (List α)) : cut units units.flatten = (units.length, []) := by
  induction units with
  | nil => rfl
  | cons u us ih => rw [List.flatten_cons, cut_cons_append, ih, List.length_cons]

/-- The first unit is in the beginning of a text, or the beginning is a part of it. -/
theorem unit_cases {t : List α} (h : x ++ y = u ++ t) :
    (∃ x', x = u ++ x' ∧ x' ++ y = t) ∨ ∃ q, q ≠ [] ∧ x ++ q = u ∧ y = q ++ t := by
  rcases List.append_eq_append_iff.mp h with ⟨q, rfl, rfl⟩ | ⟨x', rfl, rfl⟩
  · by_cases hq : q = []
    · subst hq
      exact .inl ⟨[], by simp⟩
    · exact .inr ⟨q, hq, rfl, rfl⟩
  · exact .inl ⟨x', rfl, rfl⟩

theorem length_lt_of_part {q : List α} (hq : q ≠ []) (h : x ++ q = u) : x.length < u.length := by
  rw [← h, List.length_append]
  exact Nat.lt_add_of_pos_right (List.length_pos_iff.mpr hq)

/-- Before the end of a text there is a unit that has not arrived whole. -/
theorem cut_part (hy : y ≠ []) (h : x ++ y = units.flatten) :
    ∃ hk : (cut units x).1 < units.length, ∃ q, q ≠ [] ∧
      (cut units x).2 ++ q = units[(cut units x).1] := by
  induction units generalizing x with
  | nil => exact absurd (List.append_eq_nil_iff.mp h).2 hy
  | cons u us ih =>
    rw [List.flatten_cons] at h
    rcases unit_cases h with ⟨x', rfl, htail⟩ | ⟨q, hq, hu, -⟩
    · obtain ⟨hk, q, hq, hunit⟩ := ih htail
      simp only [cut_cons_append]
      exact ⟨Nat.succ_lt_succ hk, q, hq, hunit⟩
    · simp only [cut_cons_of_lt us (length_lt_of_part hq hu)]
      exact ⟨Nat.succ_pos _, q, hq, hu⟩

/-- A reader of these units. -/
structure Reads (feed : σ → List α → γ) (ret : σ → γ) (units : List (List α))
    (st : ℕ → List α → σ) : Prop where
  ne_nil : ∀ u ∈ units, u ≠ []
  /-- a call that leaves a unit unfinished -/
  part : ∀ k (_ : k < units.length) p y q, q ≠ [] → p ++ (y ++ q) = units[k] →
    feed (st k p) y = ret (st k (p ++ y))
  /-- a call that finishes a unit -/
  unit : ∀ k (_ : k < units.length) p y rest, y ≠ [] → p ++ y = units[k] →
    feed (st k p) (y ++ rest) = feed (st (k + 1) []) rest

namespace Reads

variable {feed : σ → List α → γ} {ret : σ → γ} {st : ℕ → List α → σ}

/-- The state once the beginning of a text has arrived. -/
def stateAt (units : List (List α)) (st : ℕ → List α → σ) (x : List α) : σ :=
  st (cut units x).1 (cut units x).2

theorem stateAt_nil (h : Reads feed ret units st) : stateAt units st [] = st 0 [] := by
  rw [stateAt, cut_nil h.ne_nil]

theorem stateAt_flatten (units : List (List α)) (st : ℕ → List α → σ) :
    stateAt units st units.flatten = st units.length [] := by
  rw [stateAt, cut_flatten]

theorem stateAt_cons_append (us : List (List α)) (x : List α) :
    stateAt (u :: us) st (u ++ x) = stateAt us (fun k => st (k + 1)) x := by
  rw [stateAt, cut_cons_append]
  rfl

theorem stateAt_cons_of_lt (us : List (List α)) (h : x.length < u.length) :
    stateAt (u :: us) st x = st 0 x := by
  rw [stateAt, cut_cons_of_lt us h]

theorem tail {us : List (List α)} (h : Reads feed ret (u :: us) st) :
    Reads feed ret us fun k => st (k + 1) where
  ne_nil u' hu' := h.ne_nil u' (List.mem_cons_of_mem u hu')
  part k hk p y q hq heq := h.part (k + 1) (Nat.succ_lt_succ hk) p y q hq heq
  unit k hk p y rest hy heq := h.unit (k + 1) (Nat.succ_lt_succ hk) p y rest hy heq

/-- **A call that ends inside the text.** -/
theorem feed_part (h : Reads feed ret units st) (hz : z ≠ [])
    (heq : x ++ (y ++ z) = units.flatten) :
    feed (stateAt units st x) y = ret (stateAt units st (x ++ y)) := by
  induction units generalizing st x y with
  | nil =>
    rw [List.flatten_nil, List.append_eq_nil_iff, List.append_eq_nil_iff] at heq
    exact absurd heq.2.2 hz
  | cons u us ih =>
    rw [List.flatten_cons] at heq
    rcases unit_cases heq with ⟨x', rfl, htail⟩ | ⟨q, hq, hu, hyz⟩
    · -- the first unit has been read
      rw [stateAt_cons_append, List.append_assoc, stateAt_cons_append]
      exact ih h.tail htail
    · rw [stateAt_cons_of_lt us (length_lt_of_part hq hu)]
      rcases unit_cases hyz with ⟨y', rfl, htail⟩ | ⟨q', hq', hq, rfl⟩
      · -- the call reads the first unit
        rw [h.unit 0 (Nat.succ_pos _) x q y' hq hu, ← List.append_assoc, hu, stateAt_cons_append]
        have hnil := h.tail.stateAt_nil
        show feed (st 1 []) y' = _
        rw [← show stateAt us (fun k => st (k + 1)) [] = st 1 [] from hnil]
        exact ih (x := []) h.tail htail
      · -- the call leaves the first unit unfinished
        have hpart : (x ++ y) ++ q' = u := by rw [List.append_assoc, hq, hu]
        rw [stateAt_cons_of_lt us (length_lt_of_part hq' hpart)]
        exact h.part 0 (Nat.succ_pos _) x y q' hq' (by rw [hq, hu]; rfl)

/-- **A call that reaches the end of the text.** -/
theorem feed_whole (h : Reads feed ret units st) (heq : x ++ y = units.flatten) (rest : List α) :
    feed (stateAt units st x) (y ++ rest) = feed (st units.length []) rest := by
  induction units generalizing st x y with
  | nil =>
    obtain ⟨rfl, rfl⟩ := List.append_eq_nil_iff.mp heq
    rfl
  | cons u us ih =>
    rw [List.flatten_cons] at heq
    rcases unit_cases heq with ⟨x', rfl, htail⟩ | ⟨q, hq, hu, rfl⟩
    · rw [stateAt_cons_append]
      exact ih h.tail htail
    · rw [stateAt_cons_of_lt us (length_lt_of_part hq hu), List.append_assoc,
        h.unit 0 (Nat.succ_pos _) x q _ hq hu]
      show feed (st 1 []) _ = _
      rw [← show stateAt us (fun k => st (k + 1)) [] = st 1 [] from h.tail.stateAt_nil]
      exact ih (x := []) h.tail rfl

/-- **What is read does not depend on the pieces.** -/
theorem foldlM_eq {μ : Type → Type} [Monad μ] [LawfulMonad μ] {feed : σ → List α → μ σ}
    (h : Reads feed pure units st) (hend : feed (st units.length []) [] = pure (st units.length []))
    {pieces : List (List α)} (heq : pieces.flatten ++ z = units.flatten) :
    pieces.foldlM feed (st 0 []) = pure (stateAt units st pieces.flatten) := by
  rw [← h.stateAt_nil]
  suffices hfold : ∀ x, x ++ (pieces.flatten ++ z) = units.flatten →
      pieces.foldlM feed (stateAt units st x) = pure (stateAt units st (x ++ pieces.flatten)) from
    hfold [] heq
  clear heq
  induction pieces with
  | nil =>
    intro x _
    rw [List.foldlM_nil, List.flatten_nil, List.append_nil]
  | cons y pieces ih =>
    intro x heq
    rw [List.flatten_cons, List.append_assoc] at heq
    have hfeed : feed (stateAt units st x) y = pure (stateAt units st (x ++ y)) := by
      by_cases hz : pieces.flatten ++ z = []
      · rw [hz, List.append_nil] at heq
        have hwhole := h.feed_whole heq []
        rw [List.append_nil] at hwhole
        rw [hwhole, hend, heq, stateAt_flatten]
      · exact h.feed_part hz heq
    rw [List.foldlM_cons, hfeed, pure_bind, ih (x ++ y) (by rw [List.append_assoc, heq]),
      List.flatten_cons, List.append_assoc]

/-- **Several units are one**, for who looks from further away. -/
theorem merge (h : Reads feed ret units st) (hne : units.flatten ≠ []) :
    Reads feed ret [units.flatten] fun k p =>
      if k = 0 then stateAt units st p else st units.length p where
  ne_nil u hu := by
    rw [List.mem_singleton.mp hu]
    exact hne
  part k hk p y q hq heq := by
    obtain rfl : k = 0 := Nat.lt_one_iff.mp hk
    exact h.feed_part hq heq
  unit k hk p y rest _ heq := by
    obtain rfl : k = 0 := Nat.lt_one_iff.mp hk
    exact h.feed_whole heq rest

/-- A reader goes on where another one ends. -/
theorem append {units' : List (List α)} {st' : ℕ → List α → σ} (h : Reads feed ret units st)
    (h' : Reads feed ret units' st') (hnext : st units.length [] = st' 0 []) :
    Reads feed ret (units ++ units') fun k p =>
      if k < units.length then st k p else st' (k - units.length) p where
  ne_nil u hu := (List.mem_append.mp hu).elim (h.ne_nil u) (h'.ne_nil u)
  part k hk p y q hq heq := by
    by_cases hlt : k < units.length
    · rw [List.getElem_append_left hlt] at heq
      simp only [if_pos hlt]
      exact h.part k hlt p y q hq heq
    · rw [List.getElem_append_right (Nat.le_of_not_lt hlt)] at heq
      simp only [if_neg hlt]
      exact h'.part _ _ p y q hq heq
  unit k hk p y rest hy heq := by
    by_cases hlt : k < units.length
    · rw [List.getElem_append_left hlt] at heq
      simp only [if_pos hlt]
      rw [h.unit k hlt p y rest hy heq]
      split
      · rfl
      · obtain hend : k + 1 = units.length := by omega
        rw [hend, hnext, Nat.sub_self]
    · rw [List.getElem_append_right (Nat.le_of_not_lt hlt)] at heq
      simp only [if_neg hlt, if_neg (show ¬ k + 1 < units.length by omega)]
      rw [h'.unit _ _ p y rest hy heq, Nat.sub_add_comm (Nat.le_of_not_lt hlt)]

end Reads

/-! ### Readers from one state to another -/

/-- The units are read from the state `s` to the state `s'`. Whenever one of them has not arrived
whole, the state satisfies `inv`. -/
def ReadsTo (feed : σ → List α → γ) (ret : σ → γ) (inv : σ → Prop) (s : σ) (units : List (List α))
    (s' : σ) : Prop :=
  ∃ st, Reads feed ret units st ∧ st 0 [] = s ∧ st units.length [] = s' ∧
    ∀ k (_ : k < units.length) p q, q ≠ [] → p ++ q = units[k] → inv (st k p)

namespace ReadsTo

variable {feed : σ → List α → γ} {ret : σ → γ} {inv : σ → Prop} {s s' s'' : σ}

theorem nil (s : σ) : ReadsTo feed ret inv s [] s :=
  ⟨fun _ _ => s, ⟨fun _ h => absurd h List.not_mem_nil, fun _ h => absurd h (Nat.not_lt_zero _),
    fun _ h => absurd h (Nat.not_lt_zero _)⟩, rfl, rfl, fun _ h => absurd h (Nat.not_lt_zero _)⟩

/-- One unit. -/
theorem single {one : ℕ → List α → σ} (h : Reads feed ret [u] one) (hbegin : one 0 [] = s)
    (hend : one 1 [] = s') (hinv : ∀ p q, q ≠ [] → p ++ q = u → inv (one 0 p)) :
    ReadsTo feed ret inv s [u] s' := by
  refine ⟨one, h, hbegin, hend, fun k hk p q hq heq => ?_⟩
  obtain rfl : k = 0 := Nat.lt_one_iff.mp hk
  exact hinv p q hq heq

theorem mono {inv' : σ → Prop} (h : ReadsTo feed ret inv s units s') (himp : ∀ s, inv s → inv' s) :
    ReadsTo feed ret inv' s units s' := by
  obtain ⟨st, hst, hbegin, hend, hinv⟩ := h
  exact ⟨st, hst, hbegin, hend, fun k hk p q hq heq => himp _ (hinv k hk p q hq heq)⟩

theorem append {units' : List (List α)} (h : ReadsTo feed ret inv s units s')
    (h' : ReadsTo feed ret inv s' units' s'') : ReadsTo feed ret inv s (units ++ units') s'' := by
  obtain ⟨st, hst, rfl, hend, hinv⟩ := h
  obtain ⟨st', hst', hbegin, rfl, hinv'⟩ := h'
  refine ⟨_, hst.append hst' (hend.trans hbegin.symm), ?_, ?_, fun k hk p q hq heq => ?_⟩
  · cases units with
    | nil => exact hbegin.trans hend.symm
    | cons u units => exact if_pos (Nat.succ_pos _)
  · rw [List.length_append, if_neg (by omega), Nat.add_sub_cancel_left]
  · by_cases hlt : k < units.length
    · rw [List.getElem_append_left hlt] at heq
      rw [if_pos hlt]
      exact hinv k hlt p q hq heq
    · rw [List.getElem_append_right (Nat.le_of_not_lt hlt)] at heq
      rw [if_neg hlt]
      exact hinv' _ _ p q hq heq

/-- **Several units are one**, for who looks from further away. -/
theorem merge (h : ReadsTo feed ret inv s units s') (hne : units.flatten ≠ []) :
    ReadsTo feed ret inv s [units.flatten] s' := by
  obtain ⟨st, hst, rfl, rfl, hinv⟩ := h
  refine single (hst.merge hne) hst.stateAt_nil rfl fun p q hq heq => ?_
  obtain ⟨hk, q', hq', hunit⟩ := cut_part hq heq
  exact hinv _ hk _ q' hq' hunit

/-- All the units, and more. -/
theorem feed_whole (h : ReadsTo feed ret inv s units s') (rest : List α) :
    feed s (units.flatten ++ rest) = feed s' rest := by
  obtain ⟨st, hst, rfl, rfl, -⟩ := h
  have hwhole := hst.feed_whole (x := []) (List.nil_append units.flatten) rest
  rwa [hst.stateAt_nil] at hwhole

/-- What is there of a unit, before all of it is. -/
theorem feed_part {p q : List α} (h : ReadsTo feed ret inv s [u] s') (hq : q ≠ [])
    (heq : p ++ q = u) : ∃ s₁, feed s p = ret s₁ ∧ inv s₁ := by
  obtain ⟨st, hst, rfl, -, hinv⟩ := h
  exact ⟨st 0 p, hst.part 0 Nat.one_pos [] p q hq heq, hinv 0 Nat.one_pos p q hq heq⟩

/-- A sequence of units, each read from the state that the one before it leaves. -/
theorem foldlM {τ : Type} {f : σ → τ → Option σ} {text : τ → List α} {ts : List τ} {P : σ → Prop}
    (hstep : ∀ s t s', t ∈ ts → P s → f s t = some s' → ReadsTo feed ret inv s [text t] s' ∧ P s')
    (hs : P s) (hrun : ts.foldlM f s = some s') :
    ReadsTo feed ret inv s (ts.map text) s' ∧ P s' := by
  induction ts generalizing s with
  | nil =>
    obtain rfl := Option.some.inj hrun
    exact ⟨nil s, hs⟩
  | cons t ts ih =>
    rw [List.foldlM_cons] at hrun
    obtain ⟨s₁, hone, hrun⟩ := Option.bind_eq_some_iff.mp hrun
    obtain ⟨hreads, hs₁⟩ := hstep s t s₁ List.mem_cons_self hs hone
    obtain ⟨hrest, hs'⟩ := ih (fun s t s' ht => hstep s t s' (List.mem_cons_of_mem _ ht)) hs₁ hrun
    exact ⟨hreads.append hrest, hs'⟩

/-- **The pieces do not matter**: not for what is read of all the units, nor for what is read of the
beginning of them. -/
theorem pieces_eq {μ : Type → Type} [Monad μ] [LawfulMonad μ] {feed : σ → List α → μ σ}
    (h : ReadsTo feed pure inv s units s') (hend : feed s' [] = pure s')
    {pieces : List (List α)} :
    (pieces.flatten = units.flatten → pieces.foldlM feed s = pure s') ∧
      ∀ z, pieces.flatten ++ z = units.flatten → pieces.foldlM feed s = feed s pieces.flatten := by
  obtain ⟨st, hst, rfl, rfl, -⟩ := h
  constructor
  · intro heq
    rw [hst.foldlM_eq hend (by rw [heq, List.append_nil]), heq, Reads.stateAt_flatten]
  · intro z heq
    have hone : [pieces.flatten].flatten ++ z = units.flatten := by
      rw [List.flatten_singleton]
      exact heq
    have hwhole := hst.foldlM_eq hend hone
    rw [List.flatten_singleton, List.foldlM_cons] at hwhole
    rw [hst.foldlM_eq hend heq, ← hwhole]
    simp

/-! ### The end of a text -/

section Last

variable {μ : Type → Type} [Monad μ] [LawfulMonad μ] {feed : σ → List α → μ σ} {one : List α → σ}
  {pieces : List (List α)}

/-- A unit at the end of the text, after which nothing is read. -/
structure Last (feed : σ → List α → μ σ) (u : List α) (one : List α → σ) (s' : σ) : Prop where
  ne_nil : u ≠ []
  part : ∀ p y q, q ≠ [] → p ++ (y ++ q) = u → feed (one p) y = pure (one (p ++ y))
  unit : ∀ p y, y ≠ [] → p ++ y = u → feed (one p) y = pure s'
  stop : feed s' [] = pure s'

variable {one : List α → σ} {pieces : List (List α)}

theorem Last.foldlM_nil (h : Last feed u one s') (hnil : pieces.flatten = []) :
    pieces.foldlM feed s' = pure s' := by
  induction pieces with
  | nil => rfl
  | cons y ys ih =>
    obtain ⟨rfl, hys⟩ := List.append_eq_nil_iff.mp (List.flatten_cons.symm.trans hnil)
    rw [List.foldlM_cons, h.stop, pure_bind, ih hys]

theorem Last.foldlM_part (h : Last feed u one s') (hne : pieces.flatten ≠ [])
    (heq : x ++ pieces.flatten = u) : pieces.foldlM feed (one x) = pure s' := by
  induction pieces generalizing x with
  | nil => exact absurd rfl hne
  | cons y ys ih =>
    rw [List.flatten_cons] at heq hne
    by_cases hys : ys.flatten = []
    · rw [hys, List.append_nil] at heq hne
      rw [List.foldlM_cons, h.unit x y hne heq, pure_bind, h.foldlM_nil hys]
    · rw [List.foldlM_cons, h.part x y ys.flatten hys heq, pure_bind,
        ih hys (by rw [List.append_assoc, heq])]

/-- **A text with such a unit at its end.** -/
theorem pieces_last (h : ReadsTo feed pure inv s units (one [])) (hlast : Last feed u one s')
    (heq : pieces.flatten = units.flatten ++ u) : pieces.foldlM feed s = pure s' := by
  obtain ⟨st, hst, rfl, hend, -⟩ := h
  suffices hfold : ∀ x, x ++ pieces.flatten = units.flatten ++ u → x.length ≤ units.flatten.length →
      pieces.foldlM feed (Reads.stateAt units st x) = pure s' by
    have hnil := hfold [] heq (Nat.zero_le _)
    rwa [hst.stateAt_nil] at hnil
  clear heq
  induction pieces with
  | nil =>
    intro x heq hle
    rw [List.flatten_nil, List.append_nil] at heq
    rw [heq, List.length_append] at hle
    exact absurd (List.length_eq_zero_iff.mp (by omega)) hlast.ne_nil
  | cons y ys ih =>
    intro x heq hle
    rw [List.flatten_cons, ← List.append_assoc] at heq
    by_cases hlt : (x ++ y).length < units.flatten.length
    · -- the piece ends before the last unit
      obtain ⟨z, hz, -⟩ := List.append_eq_append_iff.mp heq |>.resolve_right (by
        rintro ⟨z, hz, -⟩
        rw [hz, List.length_append] at hlt
        omega)
      have hne : z ≠ [] := by
        rintro rfl
        rw [hz, List.append_nil] at hlt
        exact Nat.lt_irrefl _ hlt
      rw [List.foldlM_cons, hst.feed_part hne (by rw [hz, List.append_assoc]), pure_bind,
        ih _ heq (Nat.le_of_lt hlt)]
    · obtain ⟨y₁, hy₁, y₂, hy₂⟩ : ∃ y₁, x ++ y₁ = units.flatten ∧ ∃ y₂, y = y₁ ++ y₂ := by
        have hx : x <+: units.flatten := List.prefix_of_prefix_length_le
          ⟨y ++ ys.flatten, by rw [← List.append_assoc, heq]⟩ (List.prefix_append _ u) hle
        obtain ⟨y₁, hy₁⟩ := hx
        have htail : y₁ ++ u = y ++ ys.flatten := by
          rw [← hy₁, List.append_assoc, List.append_assoc] at heq
          exact (List.append_cancel_left heq).symm
        have hlen : y₁.length ≤ y.length := by
          rw [← hy₁, List.length_append, List.length_append] at hlt
          omega
        obtain ⟨y₂, hy₂⟩ := List.prefix_of_prefix_length_le ⟨u, htail⟩ (List.prefix_append _ _) hlen
        exact ⟨y₁, hy₁, y₂, hy₂.symm⟩
      have hrest : (y₂ :: ys).flatten = u := by
        rw [hy₂, ← hy₁, List.append_assoc, List.append_assoc, List.append_assoc] at heq
        exact List.append_cancel_left (List.append_cancel_left heq)
      rw [List.foldlM_cons, hy₂, hst.feed_whole hy₁ y₂, hend, ← List.foldlM_cons]
      exact hlast.foldlM_part (by rw [hrest]; exact hlast.ne_nil) hrest

end Last

end ReadsTo

end Pieces

end ChilopodCaster
