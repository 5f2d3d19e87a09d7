import ChilopodCaster.Lib.Separated
import ChilopodCaster.Server

/-!
# Joining of paths

`path_join` computes the size of its result from the sizes of the elements, as if each separator
that it adds stood for a leading slash that it drops. It decides whether a separator is needed from
the second character of the element that comes next.

## Main definitions

* `joinElement`, `pathJoinInto` — one round of the loop, and `path_join` with the size of its buffer
* `parts` — what is to be joined
* `JoinsPath` — what is expected of `path_join`
* `Separable`, `separators`, `leadingSlashes` — what it depends on

## Main results

* `foldl_joinElement_iff` — when the loop joins the elements with one slash between
* `pathJoinInto_eq` — when the result has room
* `joinsPath_iff` — when both hold
* `pathJoinInto_webroot` — for a web root below the base directory, it has none
-/

namespace ChilopodCaster

namespace Ntripsrv

open Separated

/-! ### The function -/

/-- The slash. -/
abbrev slash : Byte := 47

/-- One round of the loop: the text is extended by an element. -/
def joinElement (r p : CString) : CString :=
  let r := if p.tail ≠ [] ∧ r.getLast? ≠ some slash then r ++ [slash] else r
  r ++ (if p.head? = some slash then p.tail else p)

/-- The first element is relative. -/
def Relative (list : List CString) : Prop :=
  list ≠ [] ∧ list.head?.bind List.head? ≠ some slash

instance instDecidablePredRelative : DecidablePred Relative :=
  fun _ => inferInstanceAs (Decidable (_ ∧ _))

/-- The bytes that are allocated. -/
def joinSize (abs : CString) (list : List CString) : ℕ :=
  1 + (if Relative list then abs.length else 0) + (list.map List.length).sum

/-- `strcat(r, s)`, where `r` points to `len` bytes. -/
def strcat (len : ℕ) (r s : CString) : Option CString :=
  if r.length + s.length < len then some (r ++ s) else none

/-- One round of the loop, in a buffer of `len` bytes. -/
def joinElementInto (len : ℕ) (r p : CString) : Option CString :=
  (if p.tail ≠ [] ∧ r.getLast? ≠ some slash then strcat len r [slash] else some r).bind fun r =>
    strcat len r (if p.head? = some slash then p.tail else p)

/-- `path_join`, in the buffer that it allocates. A write past its end is `none`. -/
def pathJoinInto (abs : CString) (list : List CString) : Option CString :=
  (if Relative list then strcat (joinSize abs list) [] abs else some []).bind fun r =>
    list.foldlM (joinElementInto (joinSize abs list)) r

/-- What the loop starts with. -/
def startText (abs : CString) (list : List CString) : CString := if Relative list then abs else []

theorem pathJoin_eq (abs : CString) (list : List CString) :
    pathJoin abs list = list.foldl joinElement (startText abs list) := by
  have hstart : startText abs list =
      if (list.head?.bind List.head?).any (· ≠ 47) ∨ list.head? = some [] then abs else [] := by
    rw [startText]
    refine if_congr ?_ rfl rfl
    rcases list with - | ⟨- | ⟨c, p⟩, list⟩
    · simp [Relative]
    · simp [Relative]
    · simp [Relative]
  rw [hstart]
  rfl

/-! ### One element -/

/-- Whether the text ends in a slash after another element. An element that is a slash leaves it as
it is. -/
def slashAfter (e : Bool) (p : CString) : Bool :=
  if p = [slash] then e else p.getLast? = some slash

theorem prefix_joinElement (r p : CString) : r <+: joinElement r p := by
  rw [joinElement]
  split
  · rw [List.append_assoc]
    exact List.prefix_append _ _
  · exact List.prefix_append _ _

theorem joinElement_slash (r : CString) : joinElement r [slash] = r := List.append_nil r

theorem joinElement_singleton (r : CString) {c : Byte} (h : c ≠ slash) :
    joinElement r [c] = r ++ [c] := by
  have hhead : [c].head? ≠ some slash := fun hc => h (Option.some.inj hc)
  rw [joinElement, if_neg fun h => h.1 rfl, if_neg hhead]

/-- An element of two characters or more is separated. -/
theorem joinElement_of_tail {r p : CString} (h : p.tail ≠ []) :
    joinElement r p = (if r.getLast? = some slash then r else r ++ [slash]) ++
      if p.head? = some slash then p.tail else p := by
  rw [joinElement]
  by_cases hr : r.getLast? = some slash
  · rw [if_neg fun h => h.2 hr, if_pos hr]
  · rw [if_pos ⟨h, hr⟩, if_neg hr]

/-! ### The loop -/

/-- The text is what was joined, up to a slash at the end. -/
def Joins (e : Bool) (r s : CString) : Prop := r = trimEnd slash s ++ if e then [slash] else []

variable {e : Bool} {r s p : CString}

theorem Joins.getLast?_iff (h : Joins e r s) : r.getLast? = some slash ↔ e = true := by
  rw [h]
  cases e with
  | true => exact iff_of_true List.getLast?_concat rfl
  | false =>
    rw [if_neg Bool.false_ne_true, List.append_nil]
    exact iff_of_false (getLast?_trimEnd s) Bool.false_ne_true

/-- What was joined is not trimmed, or by one slash. -/
theorem joins_self (h : ¬ [slash, slash] <:+ s) :
    Joins (s.getLast? = some slash) s s := by
  rw [Joins]
  simp only [decide_eq_true_eq]
  exact eq_trimEnd_append h

theorem Joins.attach_slash (h : Joins e r s) :
    Joins e r (attach slash s [slash]) ∧ (r = attach slash s [slash] ↔ e = true) := by
  have hattach : attach slash s [slash] = trimEnd slash s ++ [slash] := rfl
  rw [hattach, Joins, trimEnd_concat, trimEnd_trimEnd]
  refine ⟨h, ?_⟩
  rw [h, List.append_cancel_left_eq]
  cases e <;> decide

theorem Joins.attach_singleton (h : Joins true r s) {c : Byte} (hc : c ≠ slash) :
    joinElement r [c] = attach slash s [c] ∧
      Joins false (joinElement r [c]) (attach slash s [c]) := by
  have hhead : [c].head? ≠ some slash := fun h => hc (Option.some.inj h)
  have heq : joinElement r [c] = attach slash s [c] := by
    rw [joinElement_singleton r hc, h, attach, trimStart_of_head? hhead, List.append_assoc]
    rfl
  refine ⟨heq, ?_⟩
  have hlast : (attach slash s [c]).getLast? ≠ some slash := by
    rw [← heq, joinElement_singleton r hc, List.getLast?_concat]
    exact fun h => hc (Option.some.inj h)
  rw [heq, Joins, trimEnd_of_getLast? hlast]
  exact (List.append_nil _).symm

/-- A single character is added to a text that does not end in a slash. -/
theorem Joins.blocked_singleton (h : Joins false r s) {c : Byte} (hc : c ≠ slash) :
    Blocked slash (joinElement r [c]) s := by
  intro t _ hstarts
  have hr : r = trimEnd slash s := h.trans (List.append_nil _)
  rw [joinElement_singleton r hc, hr, List.prefix_append_right_inj, List.cons_prefix_cons]
    at hstarts
  exact hc hstarts.1

/-- An element of two characters or more is joined with one slash before it, and then what it starts
with, less a slash. -/
theorem Joins.eq_of_tail (h : Joins e r s) (hp : p.tail ≠ []) :
    joinElement r p = trimEnd slash s ++ slash ::
      if p.head? = some slash then p.tail else p := by
  rw [joinElement_of_tail hp]
  by_cases hr : r.getLast? = some slash
  · rw [if_pos hr, h, h.getLast?_iff.mp hr, if_pos rfl, List.append_assoc]
    rfl
  · have he : e = false := Bool.eq_false_iff.mpr (mt h.getLast?_iff.mpr hr)
    rw [if_neg hr, h, he, if_neg Bool.false_ne_true, List.append_nil, List.append_assoc]
    rfl

/-- An element that starts with two slashes keeps the second. -/
theorem Joins.blocked_of_slashes (h : Joins e r s) (hp : [slash, slash] <+: p) :
    Blocked slash (joinElement r p) s := by
  obtain ⟨q, rfl⟩ := hp
  have htail : ([slash, slash] ++ q).tail ≠ [] := List.cons_ne_nil slash q
  refine Separated.blocked_of_two ⟨q, ?_⟩
  rw [h.eq_of_tail htail, List.append_assoc]
  rfl

theorem Joins.attach_of_tail (h : Joins e r s) (hp : p.tail ≠ [])
    (hstarts : ¬ [slash, slash] <+: p) :
    joinElement r p = attach slash s p ∧ p <:+ joinElement r p := by
  rw [h.eq_of_tail hp, attach]
  by_cases hhead : p.head? = some slash
  · obtain ⟨q, rfl⟩ := List.head?_eq_some_iff.mp hhead
    have hq : q.head? ≠ some slash := by
      intro hq
      obtain ⟨q, rfl⟩ := List.head?_eq_some_iff.mp hq
      exact hstarts ⟨q, rfl⟩
    rw [if_pos hhead, trimStart_cons, trimStart_of_head? hq]
    exact ⟨rfl, List.suffix_append _ _⟩
  · rw [if_neg hhead, trimStart_of_head? hhead]
    exact ⟨rfl, (List.suffix_cons slash p).trans (List.suffix_append _ _)⟩

/-- Two slashes at the end of an element are at the end of the text. -/
theorem suffix_joinElement_iff (hp : p.tail ≠ []) (hsuffix : p <:+ joinElement r p) :
    [slash, slash] <:+ joinElement r p ↔ [slash, slash] <:+ p := by
  refine ⟨fun h => List.suffix_of_suffix_length_le h hsuffix ?_, fun h => h.trans hsuffix⟩
  cases p with
  | nil => exact absurd rfl hp
  | cons c p =>
    rw [List.length_cons]
    exact Nat.succ_le_succ (List.length_pos_iff.mpr hp)

theorem Joins.joins_of_tail (h : Joins e r s) (hp : p.tail ≠ [])
    (hstarts : ¬ [slash, slash] <+: p) (hsuffix : ¬ [slash, slash] <:+ p) :
    Joins (slashAfter e p) (joinElement r p) (joinElement r p) := by
  obtain ⟨-, hsuffix'⟩ := h.attach_of_tail hp hstarts
  have hjoins := joins_self (mt (suffix_joinElement_iff hp hsuffix').mp hsuffix)
  have hne : p ≠ [slash] := by
    rintro rfl
    exact hp rfl
  have hlast : (joinElement r p).getLast? = p.getLast? := by
    obtain ⟨t, ht⟩ := hsuffix'
    rw [← ht, List.getLast?_append_of_ne_nil]
    rintro rfl
    exact hp rfl
  rw [slashAfter, if_neg hne, ← hlast]
  exact hjoins

/-- Elements that the loop joins with one slash between: a single character comes after a slash,
unless it is one and another element follows; no element starts with two slashes, and none but the
last ends with two. -/
def Separable : Bool → List CString → Prop
  | _, [] => True
  | e, p :: list =>
    (if p.tail = [] then e = true ∨ p = [slash] ∧ list ≠ []
      else ¬ [slash, slash] <+: p ∧ (list ≠ [] → ¬ [slash, slash] <:+ p)) ∧
    Separable (slashAfter e p) list

instance instDecidableSeparable : ∀ e list, Decidable (Separable e list)
  | _, [] => isTrue trivial
  | e, p :: list =>
    have := instDecidableSeparable (slashAfter e p) list
    inferInstanceAs (Decidable ((if p.tail = [] then e = true ∨ p = [slash] ∧ list ≠ []
      else ¬ [slash, slash] <+: p ∧ (list ≠ [] → ¬ [slash, slash] <:+ p)) ∧ _))

/-- **The loop.** -/
theorem foldl_joinElement_iff {list : List CString} (hlist : list ≠ []) (hne : ∀ p ∈ list, p ≠ [])
    (h : Joins e r s) :
    list.foldl joinElement r = list.foldl (attach slash) s ↔ Separable e list := by
  induction list generalizing e r s with
  | nil => exact absurd rfl hlist
  | cons p list ih =>
    obtain ⟨hp, hne'⟩ := List.forall_mem_cons.mp hne
    rw [List.foldl_cons, List.foldl_cons, Separable]
    -- what remains is joined in the same way, or there is nothing
    have hrest {e' : Bool} {r' s' : CString} (h : Joins e' r' s') (hend : list = [] → r' = s') :
        list.foldl joinElement r' = list.foldl (attach slash) s' ↔ Separable e' list := by
      by_cases hnil : list = []
      · rw [hnil]
        exact iff_of_true (hend hnil) trivial
      · exact ih hnil hne' h
    by_cases htail : p.tail = []
    · rw [if_pos htail]
      obtain ⟨c, rfl⟩ : ∃ c, p = [c] := by
        obtain ⟨c, q, rfl⟩ := List.exists_cons_of_ne_nil hp
        exact ⟨c, congrArg (c :: ·) htail⟩
      by_cases hc : c = slash
      · subst hc
        obtain ⟨hjoins, hend⟩ := h.attach_slash
        rw [joinElement_slash, slashAfter, if_pos rfl]
        by_cases hnil : list = []
        · subst hnil
          rw [List.foldl_nil, List.foldl_nil, hend, Separable, and_true]
          exact (or_iff_left fun h => h.2 rfl).symm
        · rw [ih hnil hne' hjoins]
          exact (and_iff_right (Or.inr ⟨rfl, hnil⟩)).symm
      · have hafter : slashAfter e [c] = false := by
          have hlast : [c].getLast? ≠ some slash := fun h => hc (Option.some.inj h)
          rw [slashAfter, if_neg fun h => hc (List.singleton_inj.mp h), decide_eq_false hlast]
        rw [hafter]
        cases e with
        | true =>
          obtain ⟨heq, hjoins⟩ := h.attach_singleton hc
          rw [hrest hjoins fun _ => heq]
          exact (and_iff_right (Or.inl rfl)).symm
        | false =>
          refine iff_of_false ((h.blocked_singleton hc).foldl_ne prefix_joinElement
            (List.prefix_refl _) [c] list) ?_
          rintro ⟨h | ⟨h, -⟩, -⟩
          · exact Bool.false_ne_true h
          · exact hc (List.singleton_inj.mp h)
    · rw [if_neg htail]
      by_cases hstarts : [slash, slash] <+: p
      · exact iff_of_false ((h.blocked_of_slashes hstarts).foldl_ne prefix_joinElement
          (List.prefix_refl _) p list) fun h => h.1.1 hstarts
      · obtain ⟨heq, hsuffix'⟩ := h.attach_of_tail htail hstarts
        by_cases hsuffix : [slash, slash] <:+ p
        · cases list with
          | nil => exact iff_of_true heq ⟨⟨hstarts, fun h => absurd rfl h⟩, trivial⟩
          | cons q list =>
            have hblocked := blocked_of_suffix ((suffix_joinElement_iff htail hsuffix').mpr hsuffix)
            rw [← heq]
            refine iff_of_false (hblocked.foldl_ne prefix_joinElement ?_ q list)
              fun h => h.1.2 (List.cons_ne_nil q list) hsuffix
            exact prefix_joinElement _ q
        · rw [← heq, hrest (h.joins_of_tail htail hstarts hsuffix) fun _ => rfl]
          exact (and_iff_right ⟨hstarts, fun _ => hsuffix⟩).symm

/-! ### What is joined -/

/-- The base directory, if the first element is relative, and the elements. -/
def parts (abs : CString) (list : List CString) : List CString :=
  if Relative list then abs :: list else list

/-- What the loop joins with one slash between: no part is followed by another one if it ends with
two slashes, and a single slash is not all there is. -/
def PartsSeparable (abs : CString) : List CString → Prop
  | [] => True
  | p :: list =>
    if p.head? = some slash then
      (if list = [] then p ≠ [slash] else ¬ [slash, slash] <:+ p) ∧
        Separable (slashAfter false p) list
    else ¬ [slash, slash] <:+ abs ∧ Separable (abs.getLast? = some slash) (p :: list)

/-- An absolute path comes first. -/
theorem foldl_absolute_iff {q : CString} {list : List CString} (hne : ∀ p ∈ list, p ≠ []) :
    list.foldl joinElement (joinElement [] (slash :: q)) =
        list.foldl (attach slash) (slash :: q) ↔
      (if list = [] then slash :: q ≠ [slash] else ¬ [slash, slash] <:+ slash :: q) ∧
        Separable (slashAfter false (slash :: q)) list := by
  by_cases hq : q = []
  · subst hq
    rw [joinElement_slash, slashAfter, if_pos rfl]
    by_cases hnil : list = []
    · subst hnil
      exact iff_of_false (List.cons_ne_nil _ _).symm fun h => h.1 rfl
    · have hjoins : Joins false [] [slash] := rfl
      have hshort : ¬ [slash, slash] <:+ [slash] := fun h => absurd h.length_le (by decide)
      rw [if_neg hnil, foldl_joinElement_iff hnil hne hjoins]
      exact (and_iff_right hshort).symm
  · have hlong : slash :: q ≠ [slash] := fun h => hq (List.cons.inj h).2
    have htext : joinElement [] (slash :: q) = slash :: q := joinElement_of_tail hq
    rw [htext, slashAfter, if_neg hlong]
    cases list with
    | nil => exact iff_of_true rfl ⟨hlong, trivial⟩
    | cons p list =>
      rw [if_neg (List.cons_ne_nil p list)]
      by_cases hsuffix : [slash, slash] <:+ slash :: q
      · exact iff_of_false ((blocked_of_suffix hsuffix).foldl_ne prefix_joinElement
          (prefix_joinElement _ p) p list) fun h => h.1 hsuffix
      · rw [foldl_joinElement_iff (List.cons_ne_nil p list) hne (joins_self hsuffix)]
        exact (and_iff_right hsuffix).symm

instance instDecidablePartsSeparable (abs : CString) :
    ∀ list, Decidable (PartsSeparable abs list)
  | [] => isTrue trivial
  | p :: list => inferInstanceAs (Decidable (if p.head? = some slash then
      (if list = [] then p ≠ [slash] else ¬ [slash, slash] <:+ p) ∧
        Separable (slashAfter false p) list
    else ¬ [slash, slash] <:+ abs ∧ Separable (abs.getLast? = some slash) (p :: list)))

/-- **The text.** -/
theorem pathJoin_eq_joined_iff {abs : CString} {list : List CString} (hne : ∀ p ∈ list, p ≠ []) :
    pathJoin abs list = joined slash (parts abs list) ↔ PartsSeparable abs list := by
  rw [pathJoin_eq]
  cases list with
  | nil => exact iff_of_true rfl trivial
  | cons p list =>
    have hrelative : Relative (p :: list) ↔ p.head? ≠ some slash :=
      and_iff_right (List.cons_ne_nil p list)
    by_cases hhead : p.head? = some slash
    · have hnot := mt hrelative.mp (not_not.mpr hhead)
      obtain ⟨q, rfl⟩ := List.head?_eq_some_iff.mp hhead
      rw [startText, if_neg hnot, parts, if_neg hnot, PartsSeparable, if_pos hhead, joined,
        List.foldl_cons]
      exact foldl_absolute_iff (List.forall_mem_cons.mp hne).2
    · have hyes := hrelative.mpr hhead
      rw [startText, if_pos hyes, parts, if_pos hyes, PartsSeparable, if_neg hhead, joined]
      by_cases hsuffix : [slash, slash] <:+ abs
      · exact iff_of_false ((blocked_of_suffix hsuffix).foldl_ne prefix_joinElement
          (prefix_joinElement abs p) p list) fun h => h.1 hsuffix
      · rw [foldl_joinElement_iff (List.cons_ne_nil p list) hne (joins_self hsuffix)]
        exact (and_iff_right hsuffix).symm

/-! ### The room -/

/-- The separators that are added. -/
def separators : Bool → List CString → ℕ
  | _, [] => 0
  | e, p :: list =>
    (if p.tail ≠ [] ∧ e = false then 1 else 0) + separators (slashAfter e p) list

/-- The slashes that are dropped. -/
def leadingSlashes (list : List CString) : ℕ := list.countP fun p => p.head? = some slash

/-- Whether the text ends in a slash, after any element. -/
theorem getLast?_joinElement (hp : p ≠ []) (hr : r.getLast? = some slash ↔ e = true) :
    (joinElement r p).getLast? = some slash ↔ slashAfter e p = true := by
  rw [slashAfter]
  by_cases htail : p.tail = []
  · obtain ⟨c, rfl⟩ : ∃ c, p = [c] := by
      obtain ⟨c, q, rfl⟩ := List.exists_cons_of_ne_nil hp
      exact ⟨c, congrArg (c :: ·) htail⟩
    by_cases hc : c = slash
    · rw [hc, joinElement_slash, if_pos rfl, hr]
    · rw [joinElement_singleton r hc, if_neg fun h => hc (List.singleton_inj.mp h),
        List.getLast?_concat]
      exact decide_eq_true_iff.symm
  · have hne : p ≠ [slash] := by
      rintro rfl
      exact htail rfl
    obtain ⟨hempty, hlast⟩ : (if p.head? = some slash then p.tail else p) ≠ [] ∧
        (if p.head? = some slash then p.tail else p).getLast? = p.getLast? := by
      split
      · obtain ⟨c, q, rfl⟩ := List.exists_cons_of_ne_nil hp
        obtain ⟨d, q, rfl⟩ := List.exists_cons_of_ne_nil htail
        exact ⟨htail, rfl⟩
      · exact ⟨hp, rfl⟩
    rw [if_neg hne, joinElement_of_tail htail, List.getLast?_append_of_ne_nil _ hempty, hlast]
    exact decide_eq_true_iff.symm

theorem length_joinElement (hp : p ≠ []) (hr : r.getLast? = some slash ↔ e = true) :
    (joinElement r p).length + (if p.head? = some slash then 1 else 0) =
      r.length + p.length + if p.tail ≠ [] ∧ e = false then 1 else 0 := by
  have helement : (if p.head? = some slash then p.tail else p).length +
      (if p.head? = some slash then 1 else 0) = p.length := by
    split
    · rw [List.length_tail, Nat.sub_add_cancel (List.length_pos_iff.mpr hp)]
    · rfl
  have hseparator : p.tail ≠ [] ∧ r.getLast? ≠ some slash ↔ p.tail ≠ [] ∧ e = false :=
    and_congr_right' ((not_congr hr).trans Bool.eq_false_iff.symm)
  rw [joinElement, List.length_append, Nat.add_assoc, helement]
  by_cases hadd : p.tail ≠ [] ∧ e = false
  · rw [if_pos (hseparator.mpr hadd), if_pos hadd, List.length_append, List.length_singleton]
    omega
  · rw [if_neg (mt hseparator.mp hadd), if_neg hadd, Nat.add_zero]

/-- **The length of the result.** -/
theorem length_foldl_joinElement {list : List CString} (hne : ∀ p ∈ list, p ≠ [])
    (hr : r.getLast? = some slash ↔ e = true) :
    (list.foldl joinElement r).length + leadingSlashes list =
      r.length + (list.map List.length).sum + separators e list := by
  induction list generalizing e r with
  | nil => rfl
  | cons p list ih =>
    obtain ⟨hp, hne⟩ := List.forall_mem_cons.mp hne
    have hstep := length_joinElement hp hr
    have hrest := ih hne (getLast?_joinElement hp hr)
    have hcount : leadingSlashes (p :: list) =
        leadingSlashes list + if p.head? = some slash then 1 else 0 := by
      rw [leadingSlashes, leadingSlashes, List.countP_cons]
      simp only [decide_eq_true_eq]
    rw [List.foldl_cons, hcount, separators, List.map_cons, List.sum_cons]
    omega

theorem joinElementInto_eq (len : ℕ) (r p : CString) :
    joinElementInto len r p =
      if (joinElement r p).length < len then some (joinElement r p) else none := by
  rw [joinElementInto, joinElement]
  by_cases hadd : p.tail ≠ [] ∧ r.getLast? ≠ some slash
  · rw [if_pos hadd, if_pos hadd, strcat]
    by_cases hroom : r.length + [slash].length < len
    · rw [if_pos hroom, Option.bind_some, strcat, ← List.length_append]
    · have hroom' :
          ¬ ((r ++ [slash]) ++ if p.head? = some slash then p.tail else p).length < len := by
        rw [List.length_append, List.length_append]
        omega
      rw [if_neg hroom, if_neg hroom']
      rfl
  · rw [if_neg hadd, if_neg hadd, Option.bind_some, strcat, ← List.length_append]

/-- The loop stays in the buffer if its result does. -/
theorem foldlM_joinElementInto {len : ℕ} (hroom : r.length < len) (list : List CString) :
    list.foldlM (joinElementInto len) r =
      if (list.foldl joinElement r).length < len then some (list.foldl joinElement r)
      else none := by
  induction list generalizing r with
  | nil => exact (if_pos hroom).symm
  | cons p list ih =>
    rw [List.foldlM_cons, List.foldl_cons, joinElementInto_eq]
    by_cases hp : (joinElement r p).length < len
    · rw [if_pos hp]
      exact ih hp
    · have hlong : ∀ l : List CString, ∀ r', r' <+: l.foldl joinElement r' := by
        intro l
        induction l with
        | nil => exact List.prefix_refl
        | cons q l ih => exact fun r' => (prefix_joinElement r' q).trans (ih _)
      have hle := (hlong list (joinElement r p)).length_le
      rw [if_neg hp, if_neg (by omega)]
      rfl

/-- What is joined has room if no more separators are added than slashes are dropped. -/
def Fits (abs : CString) (list : List CString) : Prop :=
  separators ((startText abs list).getLast? = some slash) list ≤ leadingSlashes list

instance instDecidableFits (abs : CString) (list : List CString) : Decidable (Fits abs list) :=
  inferInstanceAs (Decidable (_ ≤ _))

/-- **The bounds.** -/
theorem pathJoinInto_eq {abs : CString} {list : List CString} (hne : ∀ p ∈ list, p ≠ []) :
    pathJoinInto abs list = if Fits abs list then some (pathJoin abs list) else none := by
  have hlength := length_foldl_joinElement (r := startText abs list) hne decide_eq_true_iff.symm
  have hstart : (if Relative list then strcat (joinSize abs list) [] abs else some []) =
      some (startText abs list) ∧ (startText abs list).length < joinSize abs list ∧
        joinSize abs list = 1 + (startText abs list).length + (list.map List.length).sum := by
    rw [startText, joinSize]
    split
    · refine ⟨?_, by omega, rfl⟩
      rw [strcat, if_pos (by rw [List.length_nil]; omega)]
      rfl
    · exact ⟨rfl, by rw [List.length_nil]; omega, rfl⟩
  obtain ⟨hstart, hroom, hsize⟩ := hstart
  rw [pathJoinInto, hstart, Option.bind_some, foldlM_joinElementInto hroom,
    pathJoin_eq]
  refine if_congr ?_ rfl rfl
  rw [Fits]
  omega

theorem pathJoinInto_eq_none_iff {abs : CString} {list : List CString}
    (hne : ∀ p ∈ list, p ≠ []) : pathJoinInto abs list = none ↔ ¬ Fits abs list := by
  rw [pathJoinInto_eq hne]
  by_cases hfits : Fits abs list
  · rw [if_pos hfits]
    exact iff_of_false (Option.some_ne_none _) (not_not.mpr hfits)
  · rw [if_neg hfits]
    exact iff_of_true rfl hfits

/-- What is expected of `path_join`: nothing is written out of its buffer, and its result is the
elements with exactly one slash between, after the base directory if the first is relative. -/
def JoinsPath (abs : CString) (list : List CString) : Prop :=
  pathJoinInto abs list = some (joined slash (parts abs list))

instance instDecidableJoinsPath (abs : CString) (list : List CString) :
    Decidable (JoinsPath abs list) :=
  inferInstanceAs (Decidable (_ = _))

/-- **When paths are joined.** -/
theorem joinsPath_iff {abs : CString} {list : List CString} (hne : ∀ p ∈ list, p ≠ []) :
    JoinsPath abs list ↔ PartsSeparable abs list ∧ Fits abs list := by
  rw [JoinsPath, pathJoinInto_eq hne, ← pathJoin_eq_joined_iff hne]
  by_cases hfits : Fits abs list
  · rw [if_pos hfits, Option.some.injEq, and_iff_left hfits]
  · rw [if_neg hfits]
    exact iff_of_false (Option.some_ne_none _).symm fun h => hfits h.2

/-- A file below an absolute directory. -/
theorem joinsPath_absolute : JoinsPath (cstr "/etc/caster") [cstr "/srv/www", cstr "/map.html"] :=
  (joinsPath_iff (by decide)).mpr (by decide)

/-- For a directory below the base, one byte too many is written, or the slash before its only
character is missing. -/
theorem not_joinsPath_relative :
    ¬ JoinsPath (cstr "/etc/caster") [cstr "www", cstr "/map.html"] ∧
      ¬ JoinsPath (cstr "/etc/caster") [cstr "w", cstr "/map.html"] := by
  decide

/-- **A relative web root.** The path of a file below it is written out of bounds, unless the base
directory or the web root ends in a slash. -/
theorem pathJoinInto_webroot {dir path u : CString} (hhead : path.head? ≠ some slash)
    (htail : path.tail ≠ []) (hu : u ≠ []) :
    pathJoinInto dir [path, slash :: u] = none ↔
      dir.getLast? ≠ some slash ∧ path.getLast? ≠ some slash := by
  have hrelative : Relative [path, slash :: u] := ⟨List.cons_ne_nil _ _, hhead⟩
  have hempty : path ≠ [] := by
    rintro rfl
    exact htail rfl
  have hlong : path ≠ [slash] := by
    rintro rfl
    exact htail rfl
  have hne : ∀ p ∈ [path, slash :: u], p ≠ [] := by
    intro p hp
    rcases List.mem_pair.mp hp with rfl | rfl
    · exact hempty
    · exact List.cons_ne_nil slash u
  have hdropped : leadingSlashes [path, slash :: u] = 1 := by
    rw [leadingSlashes, List.countP_cons_of_neg (by simpa using hhead)]
    rfl
  have hadded : separators (dir.getLast? = some slash) [path, slash :: u] =
      (if dir.getLast? = some slash then 0 else 1) +
        if path.getLast? = some slash then 0 else 1 := by
    have hone (e : Prop) [Decidable e] {p : CString} (hp : p.tail ≠ []) :
        (if p.tail ≠ [] ∧ decide e = false then 1 else 0) = if e then 0 else 1 := by
      by_cases he : e
      · rw [if_pos he, if_neg fun h => of_decide_eq_false h.2 he]
      · rw [if_neg he, if_pos ⟨hp, decide_eq_false he⟩]
    rw [separators, separators, separators, slashAfter, if_neg hlong, Nat.add_zero, hone _ htail,
      hone _ (p := slash :: u) hu]
  rw [pathJoinInto_eq_none_iff hne, Fits, startText, if_pos hrelative, hdropped, hadded]
  constructor
  · intro h
    refine ⟨fun hdir => h ?_, fun hpath => h ?_⟩
    · rw [if_pos hdir]
      split <;> decide
    · rw [if_pos hpath]
      split <;> decide
  · rintro ⟨hdir, hpath⟩
    rw [if_neg hdir, if_neg hpath]
    decide

end Ntripsrv

end ChilopodCaster
