import ChilopodCaster.FilterUse
import ChilopodCaster.Lib.Loop

/-!
# The mountpoints that a filter applies to

The configuration of a filter lists mountpoints, separated by commas. The list is read by one
pointer that moves over it: over white space, over the characters up to a comma, and over the comma.
White space at the end of an item is taken off by its length. A comma at the end of the list is
allowed, and no item may be missing or be white space only.

The length of an item is kept in an `int`. It is the difference of two pointers, which can be more
than an `int` holds.

## Main definitions

* `dictRound`, `dictParse` — one round of the loop, and `rtcm_filter_dict_parse`
* `itemTexts` — the items of a list
* `ParsesExactly` — what is expected of the table
* `Counted` — the lengths that the function sees are good enough

## Main results

* `dictParse_eq` — the pointer finds the items
* `parsesExactly_iff` — the table is right when the lengths are
* `dictParse_of_short` — with items of less than 2³¹ bytes, the function is `rtcmFilterDictParse`
-/

namespace ChilopodCaster

namespace Rtcm

/-! ### The function -/

/-- The comma. -/
abbrev comma : Byte := 44

/-- A loop that moves a pointer over the characters that pass a test. The list is what the pointer
may read, up to the NUL of the string. -/
def skipWhile (test : Byte → Bool) : List Byte → Option (List Byte)
  | [] => none
  | c :: p => if test c then skipWhile test p else some (c :: p)

/-- `while (len && isspace(key[len-1])) len--` -/
def trimLen (key : List Byte) : ℕ → Option ℕ
  | 0 => some 0
  | len + 1 => key[len]?.bind fun c => if isspace c then trimLen key len else some (len + 1)

/-- `int len = p-key` -/
def intLen (n : ℕ) : ℤ := (BitVec.ofNat 32 n).toInt

/-- One round of the loop of `rtcm_filter_dict_parse`, from the table and the pointer `p`. It
returns the table, or the null pointer. A round that reads or copies what is not part of the string
returns `none`: with a length that is negative, `memcpy` is told to copy more than there can be. -/
def dictRound (s : HashTable Unit × List Byte) :
    (HashTable Unit × List Byte) ⊕ Option (Option (HashTable Unit)) :=
  match skipWhile isspace s.2 with
  | none => .inr none
  | some key =>
    match skipWhile (fun c => c ≠ 0 ∧ c ≠ comma) key with
    | none => .inr none
    | some p =>
      if p.length = key.length then .inr (some none)
      else
        let len := intLen (key.length - p.length)
        let p := if p.head? = some 0 then p else p.tail
        if len < 0 then .inr none
        else
          match trimLen key len.toNat with
          | none => .inr none
          | some len =>
            if len = 0 then .inr (some none)
            else
              -- a key that is there already is ignored
              let h := (s.1.add (key.take len) ()).getD s.1
              if p.head? = some 0 then .inr (some (some h)) else .inl (h, p)

/-- `rtcm_filter_dict_parse`. The answer is `none` when a round does not return properly, or when
the rounds do not end. -/
def dictParse (applyText : CString) : Option (Option (HashTable Unit)) :=
  (Loop.run dictRound (applyText.length + 1)
    (HashTable.new 5 zero_lt_5, applyText ++ [0])).bind id

/-! ### Items -/

/-- The items of a list: a comma at its end is left out. -/
def itemTexts (text : CString) : List CString :=
  (if text.getLast? = some comma then text.dropLast else text).splitOn comma

/-- Empty, or white space only. -/
def Blank (item : CString) : Prop := ∀ c ∈ item, isspace c = true

instance : DecidablePred Blank := fun _ => inferInstanceAs (Decidable (∀ c ∈ _, _))

/-- An item without the white space around it. -/
def trim (item : CString) : CString := (item.dropWhile isspace).rdropWhile isspace

/-- The length of an item that the function sees, without the white space before it. -/
def count (item : CString) : ℤ := intLen (item.dropWhile isspace).length

/-- The key that the function makes of an item. -/
def cut (item : CString) : CString :=
  ((item.dropWhile isspace).take (count item).toNat).rdropWhile isspace

/-- What is expected: the list is read up to its NUL at most, the null pointer is returned when an
item is blank, and else a table of the items, without the white space around them. -/
def ParsesExactly (text : CString) : Prop :=
  ∃ r, dictParse text = some r ∧ (r = none ↔ ∃ item ∈ itemTexts text, Blank item) ∧
    ∀ h, r = some h → ∀ key, (h.get key).isSome ↔ ∃ item ∈ itemTexts text, trim item = key

/-- The lengths that the function sees are good enough. -/
structure Counted (text : CString) : Prop where
  /-- with a blank item, no negative length comes before the first length that is zero -/
  blank : (∃ item ∈ itemTexts text, Blank item) →
    ∀ item ∈ (itemTexts text).takeWhile (count · ≠ 0), 0 < count item
  /-- without, the lengths are positive, and the items cut to them are the items -/
  whole : (∀ item ∈ itemTexts text, ¬ Blank item) → ∀ item ∈ itemTexts text, 0 < count item ∧
    (∃ item' ∈ itemTexts text, trim item' = cut item) ∧
      ∃ item' ∈ itemTexts text, cut item' = trim item

/-- What the function does with the items, one after the other. -/
def dictItems (h : HashTable Unit) : List CString → Option (Option (HashTable Unit))
  | [] => some (some h)
  | item :: l =>
    if count item < 0 then none
    else if count item = 0 then some none
    else dictItems ((h.add (cut item) ()).getD h) l

/-! ### One round -/

variable {test : Byte → Bool} {c : Byte} {item rest t : CString} {h : HashTable Unit}

theorem skipWhile_append (l : List Byte) (hc : test c = false) (t : List Byte) :
    skipWhile test (l ++ c :: t) = some (l.dropWhile test ++ c :: t) := by
  induction l with
  | nil => rw [List.nil_append, skipWhile, hc]; rfl
  | cons d l ih =>
    rw [List.cons_append, skipWhile]
    by_cases hd : test d = true
    · rw [if_pos hd, ih, List.dropWhile_cons_of_pos hd]
    · rw [if_neg hd, List.dropWhile_cons_of_neg hd]
      rfl

/-- A length that is in the string. -/
theorem trimLen_eq {key : List Byte} {n : ℕ} (hn : n ≤ key.length) :
    trimLen key n = some ((key.take n).rdropWhile isspace).length := by
  induction n with
  | zero => rw [trimLen, List.take_zero, List.rdropWhile_nil]; rfl
  | succ n ih =>
    have hlt : n < key.length := hn
    rw [trimLen, List.getElem?_eq_getElem hlt, Option.bind_some,
      List.take_succ_eq_append_getElem hlt]
    by_cases hspace : isspace key[n] = true
    · rw [if_pos hspace, ih hlt.le, List.rdropWhile_concat_pos _ _ _ hspace]
    · rw [if_neg hspace, List.rdropWhile_concat_neg _ _ _ hspace, List.length_append,
        List.length_take_of_le hlt.le, List.length_singleton]

theorem intLen_le (n : ℕ) : intLen n ≤ n := by
  have hbound : (BitVec.ofNat 32 n).toInt ≤ ((BitVec.ofNat 32 n).toNat : ℤ) := by
    rw [BitVec.toInt_eq_toNat_cond]
    split <;> omega
  rw [BitVec.toNat_ofNat] at hbound
  have hmod := Nat.mod_le n (2 ^ 32)
  rw [intLen]
  omega

theorem intLen_of_lt {n : ℕ} (hn : n < 2 ^ 31) : intLen n = n := by
  rw [intLen, BitVec.toInt_eq_toNat_cond, BitVec.toNat_ofNat, Nat.mod_eq_of_lt (by omega),
    if_pos (by omega)]

theorem dropWhile_eq_nil_iff_blank : item.dropWhile isspace = [] ↔ Blank item :=
  List.dropWhile_eq_nil_iff

theorem count_of_blank (hblank : Blank item) : count item = 0 := by
  rw [count, dropWhile_eq_nil_iff_blank.mpr hblank]
  rfl

/-- What is left of an item does not end up empty. -/
theorem cut_ne_nil (hcount : 0 < count item) : cut item ≠ [] := by
  intro hnil
  rw [cut, List.rdropWhile_eq_nil_iff] at hnil
  cases hkey : item.dropWhile isspace with
  | nil =>
    rw [count, hkey] at hcount
    exact absurd hcount (by decide)
  | cons c w =>
    have hspace : isspace c = true := by
      refine hnil c ?_
      rw [hkey]
      obtain ⟨n, hn⟩ := Nat.exists_eq_succ_of_ne_zero (n := (count item).toNat) (by omega)
      rw [hn, List.take_succ_cons]
      exact List.mem_cons_self
    have hnot := List.head?_dropWhile_not isspace item
    rw [hkey, List.head?_cons] at hnot
    exact absurd (hspace.symm.trans hnot) (by decide)

/-- What follows an item: a comma, or the NUL. -/
theorem not_isspace_of_end (hc : c = 0 ∨ c = comma) : isspace c = false := by
  rcases hc with rfl | rfl <;> decide

/-- **One round** takes one item. -/
theorem dictRound_eq (hitem : ∀ c ∈ item, c ≠ 0 ∧ c ≠ comma) (hc : c = 0 ∨ c = comma) :
    dictRound (h, item ++ c :: t) =
      if count item < 0 then .inr none
      else if count item = 0 then .inr (some none)
      else
        let h := (h.add (cut item) ()).getD h
        let p := if c = 0 then c :: t else t
        if p.head? = some 0 then .inr (some (some h)) else .inl (h, p) := by
  have htest : (decide (c ≠ 0 ∧ c ≠ comma)) = false := by
    rcases hc with rfl | rfl <;> decide
  have hrest : (item.dropWhile isspace).dropWhile (fun c => decide (c ≠ 0 ∧ c ≠ comma)) = [] := by
    refine List.dropWhile_eq_nil_iff.mpr fun d hd => decide_eq_true ?_
    exact hitem d ((List.dropWhile_suffix _).subset hd)
  have hlength : (item.dropWhile isspace ++ c :: t).length - (c :: t).length =
      (item.dropWhile isspace).length := by
    rw [List.length_append]
    omega
  rw [dictRound, skipWhile_append item (not_isspace_of_end hc)]
  dsimp only
  rw [skipWhile_append (item.dropWhile isspace) htest, hrest]
  dsimp only
  rw [List.nil_append, hlength]
  by_cases hblank : item.dropWhile isspace = []
  · have hcount := count_of_blank (dropWhile_eq_nil_iff_blank.mp hblank)
    rw [hblank, List.nil_append, if_pos rfl, hcount, if_neg (by decide), if_pos rfl]
  have hpos := List.length_pos_iff.mpr hblank
  rw [if_neg (by rw [List.length_append]; omega)]
  have hcount : intLen (item.dropWhile isspace).length = count item := rfl
  rw [hcount]
  by_cases hneg : count item < 0
  · rw [if_pos hneg, if_pos hneg]
  rw [if_neg hneg, if_neg hneg]
  have hle : (count item).toNat ≤ (item.dropWhile isspace).length := by
    have := intLen_le (item.dropWhile isspace).length
    rw [hcount] at this
    omega
  have htake : (item.dropWhile isspace ++ c :: t).take (count item).toNat =
      (item.dropWhile isspace).take (count item).toNat := List.take_append_of_le_length hle
  rw [trimLen_eq (by rw [List.length_append]; omega), htake]
  dsimp only
  by_cases hzero : count item = 0
  · rw [if_pos hzero, hzero, Int.toNat_zero, List.take_zero, List.rdropWhile_nil, List.length_nil,
      if_pos rfl]
  have hne : (cut item).length ≠ 0 := fun hnil =>
    cut_ne_nil (by omega) (List.length_eq_zero_iff.mp hnil)
  have hkey : (item.dropWhile isspace ++ c :: t).take (cut item).length = cut item := by
    have hstarts : cut item <+: item.dropWhile isspace ++ c :: t :=
      ((List.rdropWhile_prefix _ _).trans (List.take_prefix _ _)).trans (List.prefix_append _ _)
    exact (List.prefix_iff_eq_take.mp hstarts).symm
  have hcut : ((item.dropWhile isspace).take (count item).toNat).rdropWhile isspace =
      cut item := rfl
  rw [if_neg hzero, hcut, if_neg hne, hkey, List.head?_cons, List.tail_cons]
  simp only [Option.some_inj]

/-! ### The items, one after the other -/

/-- A text without a comma is one item, with or without a comma after it. -/
theorem items_of_not_mem (h : comma ∉ item) :
    itemTexts item = [item] ∧ itemTexts (item ++ [comma]) = [item] := by
  have hlast : item.getLast? ≠ some comma := fun hlast => h (List.mem_of_getLast? hlast)
  rw [itemTexts, itemTexts, if_neg hlast, if_pos List.getLast?_concat, List.dropLast_concat]
  exact ⟨List.splitOn_eq_singleton h, List.splitOn_eq_singleton h⟩

theorem items_append (h : comma ∉ item) (hrest : rest ≠ []) :
    itemTexts (item ++ comma :: rest) = item :: itemTexts rest := by
  have hlast : (item ++ comma :: rest).getLast? = rest.getLast? := by
    rw [List.getLast?_append, List.getLast?_cons_of_ne_nil hrest, Option.or_of_isSome]
    rwa [List.getLast?_isSome]
  have hdrop : (item ++ comma :: rest).dropLast = item ++ comma :: rest.dropLast := by
    rw [List.dropLast_append_of_ne_nil (List.cons_ne_nil _ _), List.dropLast_cons_of_ne_nil hrest]
  rw [itemTexts, itemTexts, hlast, hdrop]
  split
  · exact List.splitOn_append_cons_self_of_not_mem h _
  · exact List.splitOn_append_cons_self_of_not_mem h _

theorem ne_of_not_mem (hcomma : comma ∉ item) (hnul : 0 ∉ item) : ∀ c ∈ item, c ≠ 0 ∧ c ≠ comma :=
  fun _ hc => ⟨fun h => hnul (h ▸ hc), fun h => hcomma (h ▸ hc)⟩

/-- **The loop** takes the items, one after the other. -/
theorem run_dictRound {n : ℕ} {text : CString} (hnul : 0 ∉ text) (hn : text.length < n)
    (h : HashTable Unit) :
    Loop.run dictRound n (h, text ++ [0]) = some (dictItems h (itemTexts text)) := by
  induction n generalizing text h with
  | zero => omega
  | succ n ih =>
    -- the last item returns, and after another one the loop goes on
    rw [Loop.run]
    by_cases hmem : comma ∈ text
    · obtain ⟨item, rest, rfl, hcomma⟩ := List.eq_append_cons_of_mem hmem
      have hitem := ne_of_not_mem hcomma fun h0 => hnul (List.mem_append_left _ h0)
      rw [List.append_assoc, List.cons_append, dictRound_eq hitem (.inr rfl)]
      rcases eq_or_ne rest [] with rfl | hrest
      · rw [(items_of_not_mem hcomma).2, dictItems]
        by_cases hneg : count item < 0
        · rw [if_pos hneg, if_pos hneg]
        rw [if_neg hneg, if_neg hneg]
        by_cases hzero : count item = 0
        · rw [if_pos hzero, if_pos hzero]
        rw [if_neg hzero, if_neg hzero]
        rfl
      · rw [items_append hcomma hrest, dictItems]
        by_cases hneg : count item < 0
        · rw [if_pos hneg, if_pos hneg]
        rw [if_neg hneg, if_neg hneg]
        by_cases hzero : count item = 0
        · rw [if_pos hzero, if_pos hzero]
        rw [if_neg hzero, if_neg hzero]
        have hnul' : 0 ∉ rest := fun h0 =>
          hnul (List.mem_append_right _ (List.mem_cons_of_mem _ h0))
        have hhead : (rest ++ [0]).head? ≠ some 0 := by
          rw [List.head?_append_of_ne_nil rest hrest]
          exact fun h0 => hnul' (List.mem_of_head? h0)
        have hcomma0 : ¬ comma = 0 := by decide
        rw [if_neg hcomma0, if_neg hhead]
        rw [List.length_append, List.length_cons] at hn
        exact ih hnul' (by omega) _
    · rw [dictRound_eq (ne_of_not_mem hmem hnul) (.inl rfl), (items_of_not_mem hmem).1, dictItems]
      by_cases hneg : count text < 0
      · rw [if_pos hneg, if_pos hneg]
      rw [if_neg hneg, if_neg hneg]
      by_cases hzero : count text = 0
      · rw [if_pos hzero, if_pos hzero]
      rw [if_neg hzero, if_neg hzero]
      rfl

/-- **The pointer finds the items**, and stays in the string. -/
theorem dictParse_eq {text : CString} (hnul : 0 ∉ text) :
    dictParse text = dictItems (HashTable.new 5 zero_lt_5) (itemTexts text) := by
  rw [dictParse, run_dictRound hnul (Nat.lt_succ_self _)]
  rfl

/-! ### The table -/

/-- A key is added, or it is there already. -/
theorem isSome_get_add (h : HashTable Unit) (key key' : CString) :
    (((h.add key ()).getD h).get key').isSome ↔ (h.get key').isSome ∨ key = key' := by
  cases hadd : h.add key () with
  | none =>
    have hget : (h.get key).isSome := by
      by_contra hnone
      rw [Option.not_isSome_iff_eq_none] at hnone
      rw [HashTable.add, dif_pos hnone] at hadd
      contradiction
    exact ⟨.inl, fun hor => hor.elim id fun heq => heq ▸ hget⟩
  | some h' =>
    rw [Option.getD_some, HashTable.get_add hadd]
    by_cases heq : key' = key
    · rw [if_pos heq]
      exact iff_of_true rfl (.inr heq.symm)
    · rw [if_neg heq, or_iff_left fun hkey => heq hkey.symm]

/-- What becomes of the items: a length that is negative is no good, one that is zero returns the
null pointer, and with positive lengths the keys are the items that are cut. -/
theorem dictItems_cases (h : HashTable Unit) (l : List CString) :
    (∃ item ∈ l.takeWhile (count · ≠ 0), count item < 0) ∧ dictItems h l = none ∨
      (∀ item ∈ l.takeWhile (count · ≠ 0), 0 < count item) ∧ (∃ item ∈ l, count item = 0) ∧
          dictItems h l = some none ∨
        (∀ item ∈ l, 0 < count item) ∧ ∃ h', dictItems h l = some (some h') ∧
          ∀ key, (h'.get key).isSome ↔ (h.get key).isSome ∨ ∃ item ∈ l, cut item = key := by
  induction l generalizing h with
  | nil =>
    refine .inr (.inr ⟨fun _ hitem => absurd hitem List.not_mem_nil, h, rfl, fun key => ?_⟩)
    exact ⟨.inl, fun hor => hor.elim id fun ⟨_, hitem, _⟩ => absurd hitem List.not_mem_nil⟩
  | cons item l ih =>
    rw [dictItems]
    rcases lt_trichotomy (count item) 0 with hneg | hzero | hpos
    · have htake : item ∈ (item :: l).takeWhile (count · ≠ 0) := by
        rw [List.takeWhile_cons, if_pos (decide_eq_true hneg.ne)]
        exact List.mem_cons_self
      exact .inl ⟨⟨item, htake, hneg⟩, if_pos hneg⟩
    · have htake : (item :: l).takeWhile (count · ≠ 0) = [] :=
        List.takeWhile_cons.trans (if_neg fun hne => absurd hzero (of_decide_eq_true hne))
      refine .inr (.inl ⟨fun i hi => ?_, ⟨item, List.mem_cons_self, hzero⟩, ?_⟩)
      · rw [htake] at hi
        exact absurd hi List.not_mem_nil
      · rw [if_neg hzero.not_lt, if_pos hzero]
    · have htake : (item :: l).takeWhile (count · ≠ 0) = item :: l.takeWhile (count · ≠ 0) :=
        List.takeWhile_cons.trans (if_pos (decide_eq_true hpos.ne'))
      rw [htake, if_neg hpos.not_gt, if_neg hpos.ne']
      rcases ih ((h.add (cut item) ()).getD h) with
        ⟨⟨i, hi, hneg⟩, heq⟩ | ⟨hbefore, ⟨i, hi, hzero⟩, heq⟩ | ⟨hall, h', heq, hkeys⟩
      · exact .inl ⟨⟨i, List.mem_cons_of_mem _ hi, hneg⟩, heq⟩
      · refine .inr (.inl ⟨List.forall_mem_cons.mpr ⟨hpos, hbefore⟩, ⟨i, ?_, hzero⟩, heq⟩)
        exact List.mem_cons_of_mem _ hi
      · refine .inr (.inr ⟨List.forall_mem_cons.mpr ⟨hpos, hall⟩, h', heq, fun key => ?_⟩)
        rw [hkeys, isSome_get_add, or_assoc, List.exists_mem_cons_iff]

/-- **The table is right when the lengths are.** -/
theorem parsesExactly_iff {text : CString} (hnul : 0 ∉ text) :
    ParsesExactly text ↔ Counted text := by
  have hnew : ∀ key, ¬ ((HashTable.new 5 zero_lt_5 : HashTable Unit).get key).isSome := by
    intro key
    rw [HashTable.get_new]
    exact Bool.false_ne_true
  have hpositive : ∀ {item}, item ∈ (itemTexts text).takeWhile (count · ≠ 0) →
      item ∈ itemTexts text :=
    fun hitem => (List.takeWhile_sublist _).subset hitem
  rw [ParsesExactly, dictParse_eq hnul]
  rcases dictItems_cases (HashTable.new 5 zero_lt_5) (itemTexts text) with
    ⟨⟨item, hitem, hneg⟩, heq⟩ | ⟨hbefore, ⟨item, hitem, hzero⟩, heq⟩ | ⟨hall, h, heq, hkeys⟩
  · rw [heq]
    refine iff_of_false (fun ⟨r, hr, _⟩ => Option.some_ne_none r hr.symm) fun hcounted => ?_
    have hpos : 0 < count item := by
      by_cases hblank : ∃ item ∈ itemTexts text, Blank item
      · exact hcounted.blank hblank item hitem
      · exact (hcounted.whole (fun i hi hb => hblank ⟨i, hi, hb⟩) item (hpositive hitem)).1
    omega
  · rw [heq]
    by_cases hblank : ∃ item ∈ itemTexts text, Blank item
    · refine iff_of_true ⟨none, rfl, iff_of_true rfl hblank, fun h hh => ?_⟩ ?_
      · contradiction
      · exact ⟨fun _ => hbefore, fun hnot => absurd hblank fun ⟨i, hi, hb⟩ => hnot i hi hb⟩
    · refine iff_of_false ?_ fun hcounted => ?_
      · rintro ⟨r, hr, hiff, -⟩
        exact hblank (hiff.mp (Option.some.inj hr).symm)
      · have hpos := (hcounted.whole (fun i hi hb => hblank ⟨i, hi, hb⟩) item hitem).1
        omega
  · have hnot : ∀ item ∈ itemTexts text, ¬ Blank item := fun item hitem hblank => by
      have hpos := hall item hitem
      rw [count_of_blank hblank] at hpos
      exact absurd hpos (lt_irrefl 0)
    have hkey : ∀ key, (h.get key).isSome ↔ ∃ item ∈ itemTexts text, cut item = key := fun key => by
      rw [hkeys, or_iff_right (hnew key)]
    rw [heq]
    constructor
    · rintro ⟨r, hr, -, hright⟩
      have hright := hright h (Option.some.inj hr).symm
      refine ⟨fun ⟨item, hitem, hblank⟩ => absurd hblank (hnot item hitem), fun _ item hitem => ?_⟩
      exact ⟨hall item hitem, (hright _).mp ((hkey _).mpr ⟨item, hitem, rfl⟩),
        (hkey _).mp ((hright _).mpr ⟨item, hitem, rfl⟩)⟩
    · intro hcounted
      refine ⟨some h, rfl, iff_of_false (Option.some_ne_none h) fun ⟨item, hitem, hblank⟩ =>
        hnot item hitem hblank, fun h' hh' key => ?_⟩
      obtain rfl := Option.some.inj hh'
      rw [hkey]
      constructor
      · rintro ⟨item, hitem, rfl⟩
        exact (hcounted.whole hnot item hitem).2.1
      · rintro ⟨item, hitem, rfl⟩
        exact (hcounted.whole hnot item hitem).2.2

/-! ### Items of ordinary length -/

/-- The items are short enough for an `int`. -/
def Short (text : CString) : Prop :=
  ∀ item ∈ itemTexts text, (item.dropWhile isspace).length < 2 ^ 31

instance : DecidablePred Short := fun _ => inferInstanceAs (Decidable (∀ item ∈ _, _))

theorem count_of_short (hshort : (item.dropWhile isspace).length < 2 ^ 31) :
    count item = (item.dropWhile isspace).length := intLen_of_lt hshort

theorem cut_of_short (hshort : (item.dropWhile isspace).length < 2 ^ 31) :
    cut item = trim item := by
  rw [cut, count_of_short hshort, Int.toNat_natCast, List.take_length, trim]

theorem count_pos_of_short (hshort : (item.dropWhile isspace).length < 2 ^ 31)
    (hne : item.dropWhile isspace ≠ []) : 0 < count item := by
  have hpos := List.length_pos_iff.mpr hne
  rw [count_of_short hshort]
  omega

/-- Then the lengths are good enough. -/
theorem counted_of_short {text : CString} (hshort : Short text) : Counted text where
  blank _ item hitem := by
    have htest := List.mem_takeWhile_imp hitem
    have hne : count item ≠ 0 := of_decide_eq_true htest
    have hcount := count_of_short (hshort item ((List.takeWhile_sublist _).subset hitem))
    omega
  whole hnot item hitem := by
    have hcut := cut_of_short (hshort item hitem)
    refine ⟨count_pos_of_short (hshort item hitem) fun hnil => ?_, ⟨item, hitem, hcut.symm⟩,
      ⟨item, hitem, hcut⟩⟩
    exact hnot item hitem (dropWhile_eq_nil_iff_blank.mp hnil)

/-- The items, by splitting first. -/
theorem items_eq (text : CString) :
    itemTexts text =
      if 1 < (text.splitOn comma).length ∧ (text.splitOn comma).getLast? = some [] then
        (text.splitOn comma).dropLast
      else text.splitOn comma := by
  induction hn : text.length using Nat.strongRecOn generalizing text with
  | ind n ih =>
    by_cases hmem : comma ∈ text
    · obtain ⟨item, rest, rfl, hcomma⟩ := List.eq_append_cons_of_mem hmem
      rw [List.splitOn_append_cons_self_of_not_mem hcomma]
      rcases eq_or_ne rest [] with rfl | hrest
      · rw [(items_of_not_mem hcomma).2]
        rfl
      · have hne : rest.splitOn comma ≠ [] := List.splitOn_ne_nil _ _
        rw [List.length_append, List.length_cons] at hn
        rw [items_append hcomma hrest, ih rest.length (by omega) rest rfl,
          List.getLast?_cons_of_ne_nil hne, List.dropLast_cons_of_ne_nil hne, List.length_cons]
        have hpos := List.length_pos_iff.mpr hne
        have hlast : (rest.splitOn comma).getLast? = some [] → 1 < (rest.splitOn comma).length := by
          intro hlast
          by_contra hle
          by_cases hmem' : comma ∈ rest
          · obtain ⟨x, y, rfl, hx⟩ := List.eq_append_cons_of_mem hmem'
            rw [List.splitOn_append_cons_self_of_not_mem hx, List.length_cons] at hle
            have hpos := List.length_pos_iff.mpr (@List.splitOn_ne_nil _ _ comma y)
            omega
          · rw [List.splitOn_eq_singleton hmem'] at hlast
            exact hrest (Option.some.inj hlast)
        by_cases hsome : (rest.splitOn comma).getLast? = some []
        · rw [if_pos ⟨hlast hsome, hsome⟩, if_pos ⟨by omega, hsome⟩]
        · rw [if_neg fun h => hsome h.2, if_neg fun h => hsome h.2]
    · rw [(items_of_not_mem hmem).1, List.splitOn_eq_singleton hmem, List.length_singleton,
        if_neg fun h => lt_irrefl 1 h.1]

theorem dictItems_of_short {l : List CString}
    (hshort : ∀ item ∈ l, (item.dropWhile isspace).length < 2 ^ 31) (h : HashTable Unit) :
    dictItems h l = some (l.foldlM filterDictKey h) := by
  induction l generalizing h with
  | nil => rfl
  | cons item l ih =>
    obtain ⟨hitem, hl⟩ := List.forall_mem_cons.mp hshort
    have hkey : cut item = (item.dropWhile isspace).rdropWhile isspace := cut_of_short hitem
    rw [dictItems, List.foldlM_cons, filterDictKey, ← hkey]
    by_cases hnil : item.dropWhile isspace = []
    · have hblank : cut item = [] := by
        rw [hkey, hnil, List.rdropWhile_nil]
      rw [count_of_blank (dropWhile_eq_nil_iff_blank.mp hnil), if_neg (lt_irrefl 0), if_pos rfl,
        if_pos hblank]
      rfl
    · have hpos := count_pos_of_short hitem hnil
      rw [if_neg hpos.not_gt, if_neg hpos.ne', if_neg (cut_ne_nil hpos), ih hl]
      rfl

/-- **Items of ordinary length.** The function is what it is taken for where filters are used. -/
theorem dictParse_of_short {text : CString} (hnul : 0 ∉ text) (hshort : Short text) :
    dictParse text = some (rtcmFilterDictParse text) := by
  rw [dictParse_eq hnul, dictItems_of_short hshort, items_eq]
  rfl

/-- A list with white space around its items, and a comma at its end. -/
theorem parsesExactly_stations : ParsesExactly (cstr " BASE1 ,BASE2\n,") :=
  (parsesExactly_iff (by decide)).mpr (counted_of_short (by decide +kernel))

/-- One item of 2³² letters: the length that the function sees is zero, and it returns the null
pointer. -/
theorem not_parsesExactly_long : ¬ ∀ text : CString, 0 ∉ text → ParsesExactly text := by
  intro hall
  have hmem : ∀ {n : ℕ} {c : Byte}, c ∈ List.replicate n (97 : Byte) → c = 97 :=
    fun hc => List.eq_of_mem_replicate hc
  obtain ⟨r, hr, hiff, -⟩ :=
    hall (List.replicate 4294967296 97) fun h => absurd (hmem h) (by decide)
  have hitems : itemTexts (List.replicate 4294967296 97) = [List.replicate 4294967296 97] :=
    (items_of_not_mem fun h => absurd (hmem h) (by decide)).1
  have hkey : (List.replicate 4294967296 (97 : Byte)).dropWhile isspace =
      List.replicate 4294967296 97 := by
    rw [List.dropWhile_replicate, if_neg (by decide)]
  have hcount : count (List.replicate 4294967296 97) = 0 := by
    rw [count, hkey, List.length_replicate]
    decide
  rw [dictParse_eq fun h => absurd (hmem h) (by decide), hitems, dictItems, hcount,
    if_neg (lt_irrefl 0), if_pos rfl] at hr
  obtain ⟨item, hitem, hblank⟩ := hiff.mp (Option.some.inj hr).symm
  rw [hitems] at hitem
  obtain rfl := List.mem_singleton.mp hitem
  have hspace := hblank 97 (List.mem_replicate.mpr ⟨by decide, rfl⟩)
  exact absurd hspace (by decide)

end Rtcm

end ChilopodCaster
