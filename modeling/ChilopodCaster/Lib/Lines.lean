import Mathlib.Data.List.Basic

/-!
# The lines of a text

A line is what stands up to a newline, with the newline; what stands after the last newline is a
line too, if it is not empty. So the lines of a text are the text, cut.

Two things can be done to a text line by line. Lines can be left out: the others stay lines. A line
can be added at the end: that is one more line only if the text ended with a newline.

## Main definitions

* `lines` — the lines of a text
* `Lined` — a list of lines, of which only the last can lack its newline
* `Terminated` — the text is empty or ends with a newline

## Main results

* `lines_flatten` — the lines of a list of lines, put together
* `lines_append` — the lines of two texts, put together
* `length_lines_append` — without a newline between them, two lines become one
-/

namespace ChilopodCaster

namespace Lines

variable {α : Type*} {nl : α}

/-- A symbol before the first line. -/
def consHead (c : α) : List (List α) → List (List α)
  | [] => [[c]]
  | l :: ls => (c :: l) :: ls

/-- A line with its newline. -/
def IsLine (nl : α) (l : List α) : Prop := ∃ body, nl ∉ body ∧ l = body ++ [nl]

/-- A list of lines, of which only the last can lack its newline. -/
inductive Lined (nl : α) : List (List α) → Prop
  | nil : Lined nl []
  | last {l : List α} (hne : l ≠ []) (h : nl ∉ l) : Lined nl [l]
  | cons {l : List α} {ls : List (List α)} (h : IsLine nl l) (hls : Lined nl ls) :
      Lined nl (l :: ls)

/-- The text is empty or ends with a newline. -/
def Terminated (nl : α) (s : List α) : Prop := ∀ c, s.getLast? = some c → c = nl

theorem flatten_consHead (c : α) (ls : List (List α)) :
    (consHead c ls).flatten = c :: ls.flatten := by
  cases ls with
  | nil => rfl
  | cons l ls => rfl

theorem consHead_append {ls : List (List α)} (h : ls ≠ []) (c : α) (ls' : List (List α)) :
    consHead c (ls ++ ls') = consHead c ls ++ ls' := by
  cases ls with
  | nil => contradiction
  | cons l ls => rfl

theorem length_consHead {ls : List (List α)} (h : ls ≠ []) (c : α) :
    (consHead c ls).length = ls.length := by
  cases ls with
  | nil => contradiction
  | cons l ls => rfl

/-! ### Lists of lines -/

theorem Lined.consHead {c : α} (hc : c ≠ nl) {ls : List (List α)} (h : Lined nl ls) :
    Lined nl (consHead c ls) := by
  have hmem {l : List α} (h : nl ∉ l) : nl ∉ c :: l := by
    rw [List.mem_cons, not_or]
    exact ⟨hc.symm, h⟩
  cases h with
  | nil => exact .last (List.cons_ne_nil c []) (hmem List.not_mem_nil)
  | last hne h => exact .last (List.cons_ne_nil c _) (hmem h)
  | cons h hls =>
    obtain ⟨body, hbody, rfl⟩ := h
    exact .cons ⟨c :: body, hmem hbody, rfl⟩ hls

/-- Lines can be left out. -/
theorem Lined.filter {ls : List (List α)} (h : Lined nl ls) (p : List α → Bool) :
    Lined nl (ls.filter p) := by
  induction h with
  | nil => exact .nil
  | @last l hne h =>
    by_cases hp : p l = true
    · rw [List.filter_cons_of_pos hp]
      exact .last hne h
    · rw [List.filter_cons_of_neg hp]
      exact .nil
  | @cons l ls h _ ih =>
    by_cases hp : p l = true
    · rw [List.filter_cons_of_pos hp]
      exact .cons h ih
    · rw [List.filter_cons_of_neg hp]
      exact ih

theorem lined_of_forall {ls : List (List α)} (h : ∀ l ∈ ls, IsLine nl l) : Lined nl ls := by
  induction ls with
  | nil => exact .nil
  | cons l ls ih =>
    exact .cons (h l (List.mem_cons_self ..)) (ih fun l' hl' => h l' (List.mem_cons_of_mem _ hl'))

theorem Terminated.of_cons {c : α} {s : List α} (h : Terminated nl (c :: s)) : Terminated nl s := by
  cases s with
  | nil =>
    intro d hd
    contradiction
  | cons d s =>
    intro e he
    exact h e (by rw [List.getLast?_cons_cons, he])

theorem terminated_iff {s : List α} : (∀ c ∈ s.getLast?, c = nl) ↔ Terminated nl s := Iff.rfl

theorem Lined.isLine_or {ls : List (List α)} (h : Lined nl ls) :
    ∀ l ∈ ls, IsLine nl l ∨ nl ∉ l := by
  induction h with
  | nil =>
    intro l hl
    exact absurd hl List.not_mem_nil
  | last hne h =>
    intro l hl
    obtain rfl := List.mem_singleton.mp hl
    exact .inr h
  | cons h _ ih =>
    intro l hl
    rcases List.mem_cons.mp hl with rfl | hl
    · exact .inl h
    · exact ih l hl

/-- A text that is put together from lines ends with a newline if each of them does. -/
theorem terminated_flatten_iff {ls : List (List α)} (h : Lined nl ls) :
    Terminated nl ls.flatten ↔ ∀ l ∈ ls, IsLine nl l := by
  induction h with
  | nil => exact iff_of_true (fun c hc => absurd hc (Option.some_ne_none c).symm) (by simp)
  | @last l hne h =>
    rw [List.flatten_cons, List.flatten_nil, List.append_nil, List.forall_mem_singleton]
    refine iff_of_false (fun hlast => h ?_) fun hline => ?_
    · have hmem := List.getLast_mem hne
      rwa [hlast _ (List.getLast?_eq_some_getLast hne)] at hmem
    · obtain ⟨body, -, rfl⟩ := hline
      exact h (List.mem_append_right body List.mem_cons_self)
  | @cons l ls h _ ih =>
    rw [List.forall_mem_cons, List.flatten_cons, ← ih, and_iff_right h]
    obtain ⟨body, -, rfl⟩ := h
    rw [Terminated, Terminated]
    by_cases hls : ls.flatten = []
    · rw [hls, List.append_nil, List.getLast?_concat]
      exact iff_of_true (fun c hc => (Option.some.inj hc).symm)
        fun c hc => absurd hc (Option.some_ne_none c).symm
    · rw [List.getLast?_append_of_ne_nil _ hls]

theorem mem_intercalate {c : α} {ls : List (List α)} {a : α} (h : a ∈ [c].intercalate ls) :
    a = c ∨ ∃ l ∈ ls, a ∈ l := by
  induction ls with
  | nil => exact absurd h List.not_mem_nil
  | cons l ls ih =>
    cases ls with
    | nil =>
      rw [List.intercalate_singleton] at h
      exact .inr ⟨l, List.mem_singleton_self l, h⟩
    | cons l' ls =>
      rw [List.intercalate_cons_cons, List.mem_append, List.mem_append] at h
      rcases h with (hl | hc) | hls
      · exact .inr ⟨l, List.mem_cons_self .., hl⟩
      · exact .inl (List.mem_singleton.mp hc)
      · rcases ih hls with hc | ⟨m, hm, ha⟩
        · exact .inl hc
        · exact .inr ⟨m, List.mem_cons_of_mem _ hm, ha⟩

/-! ### The lines of a text -/

variable [DecidableEq α]

/-- The lines of a text, each with its newline. -/
def lines (nl : α) : List α → List (List α)
  | [] => []
  | c :: s => if c = nl then [c] :: lines nl s else consHead c (lines nl s)

instance instDecidableTerminated (s : List α) : Decidable (Terminated nl s) :=
  decidable_of_iff _ terminated_iff

theorem lines_nl (s : List α) : lines nl (nl :: s) = [nl] :: lines nl s := if_pos rfl

theorem lines_cons {c : α} (hc : c ≠ nl) (s : List α) :
    lines nl (c :: s) = consHead c (lines nl s) := if_neg hc

/-- Nothing of the text is lost. -/
theorem flatten_lines (s : List α) : (lines nl s).flatten = s := by
  induction s with
  | nil => rfl
  | cons c s ih =>
    by_cases hc : c = nl
    · rw [hc, lines_nl, List.flatten_cons, ih, List.singleton_append]
    · rw [lines_cons hc, flatten_consHead, ih]

theorem lines_eq_nil_iff {s : List α} : lines nl s = [] ↔ s = [] := by
  constructor
  · intro h
    have hflatten : (lines nl s).flatten = s := flatten_lines s
    rw [← hflatten, h, List.flatten_nil]
  · rintro rfl
    rfl

theorem lined_lines (s : List α) : Lined nl (lines nl s) := by
  induction s with
  | nil => exact .nil
  | cons c s ih =>
    by_cases hc : c = nl
    · rw [hc, lines_nl]
      exact .cons ⟨[], List.not_mem_nil, rfl⟩ ih
    · rw [lines_cons hc]
      exact ih.consHead hc

theorem lines_line_append {l : List α} (h : IsLine nl l) (s : List α) :
    lines nl (l ++ s) = l :: lines nl s := by
  obtain ⟨body, hbody, rfl⟩ := h
  induction body with
  | nil => exact lines_nl s
  | cons c body ih =>
    rw [List.mem_cons, not_or] at hbody
    rw [List.cons_append, List.cons_append, lines_cons (Ne.symm hbody.1), ih hbody.2]
    rfl

theorem lines_last {l : List α} (hne : l ≠ []) (h : nl ∉ l) : lines nl l = [l] := by
  induction l with
  | nil => contradiction
  | cons c l ih =>
    rw [List.mem_cons, not_or] at h
    rw [lines_cons (Ne.symm h.1)]
    by_cases hl : l = []
    · rw [hl]
      rfl
    · rw [ih hl h.2]
      rfl

/-- **The lines of a list of lines, put together.** -/
theorem lines_flatten {ls : List (List α)} (h : Lined nl ls) : lines nl ls.flatten = ls := by
  induction h with
  | nil => rfl
  | last hne h =>
    rw [List.flatten_cons, List.flatten_nil, List.append_nil]
    exact lines_last hne h
  | cons h _ ih => rw [List.flatten_cons, lines_line_append h, ih]

/-- A function that does not look at the newline, and that leaves out empty lines, gives the same on
the lines of a text as on the pieces between the newlines. -/
theorem filterMap_splitOn {β : Type*} (f : List α → Option β) (hline : ∀ l, f (l ++ [nl]) = f l)
    (hnil : f [] = none) (s : List α) :
    (s.splitOn nl).filterMap f = (lines nl s).filterMap f := by
  have hlined : ∀ ls, Lined nl ls → (ls.flatten.splitOn nl).filterMap f = ls.filterMap f := by
    intro ls hls
    induction hls with
    | nil => rw [List.flatten_nil, List.splitOn_nil, List.filterMap_cons_none hnil]
    | last _ h =>
      rw [List.flatten_cons, List.flatten_nil, List.append_nil, List.splitOn_eq_singleton h]
    | cons h _ ih =>
      obtain ⟨body, hbody, rfl⟩ := h
      rw [List.flatten_cons, List.append_assoc, List.singleton_append,
        List.splitOn_append_cons_self, List.splitOn_eq_singleton hbody, List.singleton_append,
        List.filterMap_cons, List.filterMap_cons, hline, ih]
  have h := hlined _ (lined_lines s)
  rwa [flatten_lines] at h

/-! ### Adding to a text -/

/-- **The lines of two texts, put together.** -/
theorem lines_append {s : List α} (h : Terminated nl s) (t : List α) :
    lines nl (s ++ t) = lines nl s ++ lines nl t := by
  induction s with
  | nil => rfl
  | cons c s ih =>
    by_cases hc : c = nl
    · rw [hc, List.cons_append, lines_nl, lines_nl, ih h.of_cons, List.cons_append]
    · have hs : s ≠ [] := by
        rintro rfl
        exact hc (h c rfl)
      rw [List.cons_append, lines_cons hc, lines_cons hc, ih h.of_cons,
        consHead_append (mt lines_eq_nil_iff.mp hs)]

/-- **Without a newline between them, two lines become one.** -/
theorem length_lines_append {s : List α} (h : ¬ Terminated nl s) {t : List α} (ht : t ≠ []) :
    (lines nl (s ++ t)).length + 1 = (lines nl s).length + (lines nl t).length := by
  induction s with
  | nil =>
    refine absurd (fun c hc => ?_) h
    contradiction
  | cons c s ih =>
    by_cases hs : s = []
    · have hc : c ≠ nl := by
        rintro rfl
        refine h fun d hd => ?_
        rw [hs, List.getLast?_singleton] at hd
        exact (Option.some.inj hd).symm
      rw [hs, List.singleton_append, lines_cons hc, lines_cons hc,
        length_consHead (mt lines_eq_nil_iff.mp ht)]
      exact Nat.add_comm _ _
    · have hrest : ¬ Terminated nl s := by
        intro hs'
        refine h fun d hd => hs' d ?_
        obtain ⟨e, s, rfl⟩ := List.exists_cons_of_ne_nil hs
        rwa [List.getLast?_cons_cons] at hd
      have ih := ih hrest
      by_cases hc : c = nl
      · rw [hc, List.cons_append, lines_nl, lines_nl, List.length_cons, List.length_cons]
        omega
      · have hst : s ++ t ≠ [] := List.append_ne_nil_of_left_ne_nil hs t
        rw [List.cons_append, lines_cons hc, lines_cons hc,
          length_consHead (mt lines_eq_nil_iff.mp hst), length_consHead (mt lines_eq_nil_iff.mp hs),
          ih]

/-- What stands after the last newline. -/
theorem exists_of_not_terminated {s : List α} (h : ¬ Terminated nl s) :
    ∃ a b, s = a ++ b ∧ Terminated nl a ∧ b ≠ [] ∧ nl ∉ b := by
  have hnil : Terminated nl ([] : List α) := fun c hc => absurd hc (Option.some_ne_none c).symm
  induction s with
  | nil => exact absurd hnil h
  | cons c s ih =>
    by_cases hs : Terminated nl s
    · rcases s with - | ⟨d, s⟩
      · refine ⟨[], [c], rfl, hnil, List.cons_ne_nil c [], fun hc => h ?_⟩
        rw [List.mem_singleton.mp hc]
        exact fun d hd => (Option.some.inj hd).symm
      · exact absurd (fun e he => hs e (by rwa [List.getLast?_cons_cons] at he)) h
    · obtain ⟨a, b, rfl, ha, hb, hnl⟩ := ih hs
      rcases a with - | ⟨d, a⟩
      · by_cases hc : c = nl
        · exact ⟨[c], b, rfl, fun d hd => (Option.some.inj hd).symm.trans hc, hb, hnl⟩
        · exact ⟨[], c :: b, rfl, hnil, List.cons_ne_nil c b, by
            rw [List.mem_cons, not_or]
            exact ⟨Ne.symm hc, hnl⟩⟩
      · exact ⟨c :: d :: a, b, rfl, fun e he => ha e (by rwa [List.getLast?_cons_cons] at he),
          hb, hnl⟩

/-- Lines are left out of a text. It ends with a newline then if it did before, or if the last line
is one of them. -/
theorem terminated_filter_iff (s : List α) (p : List α → Prop) [DecidablePred p] :
    Terminated nl ((lines nl s).filter fun l => ¬ p l).flatten ↔
      Terminated nl s ∨ ∃ l, (lines nl s).getLast? = some l ∧ p l := by
  rw [terminated_flatten_iff ((lined_lines s).filter _)]
  by_cases hs : Terminated nl s
  · have hlines := (terminated_flatten_iff (lined_lines s)).mp (by rwa [flatten_lines])
    exact iff_of_true (fun l hl => hlines l (List.mem_filter.mp hl).1) (Or.inl hs)
  · obtain ⟨a, b, rfl, ha, hb, hnl⟩ := exists_of_not_terminated hs
    have hlines : lines nl (a ++ b) = lines nl a ++ [b] := by
      rw [lines_append ha, lines_last hb hnl]
    have hall := (terminated_flatten_iff (lined_lines a)).mp (by rwa [flatten_lines])
    have hnot : ¬ IsLine nl b := by
      rintro ⟨body, -, rfl⟩
      exact hnl (List.mem_append_right body List.mem_cons_self)
    rw [or_iff_right hs, hlines, List.getLast?_concat]
    constructor
    · intro h
      refine ⟨b, rfl, by_contra fun hp => hnot (h b ?_)⟩
      rw [List.mem_filter]
      exact ⟨List.mem_append_right _ List.mem_cons_self, decide_eq_true hp⟩
    · rintro ⟨l, hl, hp⟩ l' hl'
      obtain ⟨hmem, hp'⟩ := List.mem_filter.mp hl'
      rcases List.mem_append.mp hmem with hmem | hmem
      · exact hall l' hmem
      · rw [List.mem_singleton.mp hmem, Option.some.inj hl] at hp'
        exact absurd hp (of_decide_eq_true hp')

/-! ### Fields -/

/-- A field has no separator in it. -/
theorem not_mem_of_mem_splitOn {c : α} {s l : List α} (h : l ∈ s.splitOn c) : c ∉ l := by
  induction s generalizing l with
  | nil =>
    rw [List.splitOn_nil, List.mem_singleton] at h
    rw [h]
    exact List.not_mem_nil
  | cons a s ih =>
    rw [List.splitOn_cons_eq_if_modifyHead] at h
    split at h
    · rcases List.mem_cons.mp h with rfl | h
      · exact List.not_mem_nil
      · exact ih h
    · next hac =>
      obtain ⟨l', ls, hls⟩ := List.exists_cons_of_ne_nil (List.splitOn_ne_nil c s)
      rw [hls, List.modifyHead_cons] at h
      rcases List.mem_cons.mp h with rfl | h
      · rw [List.mem_cons, not_or]
        exact ⟨fun hca => hac (beq_iff_eq.mpr hca.symm), ih (hls ▸ List.mem_cons_self ..)⟩
      · exact ih (hls ▸ List.mem_cons_of_mem _ h)

/-- A field is a part of the line. -/
theorem mem_of_mem_splitOn {c a : α} {s l : List α} (h : l ∈ s.splitOn c) (ha : a ∈ l) : a ∈ s := by
  induction s generalizing l with
  | nil =>
    rw [List.splitOn_nil, List.mem_singleton] at h
    rwa [h] at ha
  | cons b s ih =>
    rw [List.splitOn_cons_eq_if_modifyHead] at h
    split at h
    · rcases List.mem_cons.mp h with rfl | h
      · exact absurd ha List.not_mem_nil
      · exact List.mem_cons_of_mem _ (ih h ha)
    · obtain ⟨l', ls, hls⟩ := List.exists_cons_of_ne_nil (List.splitOn_ne_nil c s)
      rw [hls, List.modifyHead_cons] at h
      rcases List.mem_cons.mp h with rfl | h
      · rcases List.mem_cons.mp ha with rfl | ha
        · exact List.mem_cons_self ..
        · exact List.mem_cons_of_mem _ (ih (hls ▸ List.mem_cons_self ..) ha)
      · exact List.mem_cons_of_mem _ (ih (hls ▸ List.mem_cons_of_mem _ h) ha)

end Lines

end ChilopodCaster
