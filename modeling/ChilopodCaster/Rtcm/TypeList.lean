import ChilopodCaster.Decimal
import ChilopodCaster.FilterUse
import ChilopodCaster.Http
import ChilopodCaster.Rtcm.Typesets

/-!
# Lists of message types

A set of types is written as its members in decimal, with commas between them. Filters are
configured by such lists, and the types seen are printed as one.

The reader keeps the first four characters of each item and lets `sscanf` read a number in them.
What is tracked has four digits, so these four characters are the number. The characters after them
are never looked at.

The printer writes five characters and a NUL for each type, the NUL over the place of the next. The
last comma is then stomped over.

## Main definitions

* `IsTypeList` — the texts that are meant to be read
* `ReadsTypeList`, `PrintsTypeset` — what is expected of reading and printing
* `rtcmTypesetParse`, `rtcmTypesetStr` — `rtcm_typeset_parse` and `rtcm_typeset_str`

## Main results

* `setStr_eq` — what is read of one item
* `readsTypeList_iff` — when a text is read as a list of types
* `rtcmTypesetStr_prints` — a set that is printed is read back
-/

namespace ChilopodCaster

namespace Rtcm

/-! ### One item -/

/-- A decimal number that is a type that is tracked. -/
def NumberTracked (item : CString) : Prop :=
  item ≠ [] ∧ (∀ c ∈ item, isdigit c = true) ∧ Tracked (decValue item)

instance instDecidablePredNumberTracked : DecidablePred NumberTracked :=
  fun item => inferInstanceAs (Decidable (item ≠ [] ∧ (∀ c ∈ item, isdigit c = true) ∧
    Tracked (decValue item)))

/-- What four characters at most are read as, where it is large. -/
theorem eq_decValue_of_strtoll {s : CString} (hlength : s.length ≤ 4) {v : ℤ}
    (h : strtoll s = some v) :
    v.natAbs < 10 ^ 4 ∧ (1000 ≤ v → (∀ c ∈ s, isdigit c = true) ∧ v = decValue s) := by
  obtain ⟨lead, digits, rest, rfl, -, hdigits, hv⟩ := strtoll_eq_some h
  rw [List.length_append, List.length_append] at hlength
  have hlt : decValue digits < 10 ^ 4 :=
    (decValue_lt hdigits).trans_le (Nat.pow_le_pow_right (by decide) (by omega))
  have hclamp : clamp (decValue digits) = decValue digits := clamp_of_bounds (by omega) (by omega)
  have hclamp' : clamp (-(decValue digits : ℤ)) = -(decValue digits : ℤ) :=
    clamp_of_bounds (by omega) (by omega)
  rw [hclamp, hclamp'] at hv
  refine ⟨by omega, fun hlarge => ?_⟩
  have hfour : 4 ≤ digits.length := by
    by_contra hshort
    have hsmall : decValue digits < 10 ^ 3 :=
      (decValue_lt hdigits).trans_le (Nat.pow_le_pow_right (by decide) (by omega))
    omega
  have hlead : lead = [] := List.eq_nil_of_length_eq_zero (by omega)
  have hrest : rest = [] := List.eq_nil_of_length_eq_zero (by omega)
  rw [hlead, hrest, List.nil_append, List.append_nil]
  exact ⟨hdigits, by omega⟩

/-- **One item.** Four characters at most are accepted when they are a number that is tracked. -/
theorem setStr_eq {s : CString} (hlength : s.length ≤ 4) (t : Typeset) :
    t.setStr s = if NumberTracked s then t.set (decValue s) else none := by
  have hread : NumberTracked s → strtoll s = some (decValue s : ℤ) := by
    rintro ⟨hne, hdigits, htracked⟩
    rw [strtoll_of_isdigit hne hdigits, clamp_of_bounds (by omega)]
    rw [Tracked] at htracked
    omega
  rw [Typeset.setStr, sscanfD]
  cases hs : strtoll s with
  | none =>
    rw [hs] at hread
    rw [if_neg fun h => Option.some_ne_none _ (hread h).symm]
    rfl
  | some v =>
    obtain ⟨hsmall, hlarge⟩ := eq_decValue_of_strtoll hlength hs
    rw [Option.map_some, Option.bind_some, toInt_ofInt_of_bounds (by omega) (by omega)]
    by_cases hnumber : NumberTracked s
    · have hv : v = decValue s := Option.some.inj (hs.symm.trans (hread hnumber))
      rw [if_pos hnumber, hv, if_neg (by omega), Int.toNat_natCast]
    · rw [if_neg hnumber]
      split
      · rfl
      · refine set_eq_none_iff.mpr fun htracked => hnumber ?_
        have hge : 1000 ≤ v := by
          rw [Tracked] at htracked
          omega
        obtain ⟨hdigits, hv⟩ := hlarge hge
        refine ⟨?_, hdigits, by rwa [hv, Int.toNat_natCast] at htracked⟩
        rintro rfl
        rw [hv] at hge
        exact absurd hge (by decide)

/-! ### The loop -/

/-- The items of a list. -/
def items (typelist : CString) : List CString := typelist.splitOn 44

theorem length_nil_le_four : ([] : CString).length ≤ 4 := Nat.zero_le 4

theorem exists_items_eq (typelist : CString) : ∃ item rest, items typelist = item :: rest :=
  List.exists_cons_of_ne_nil (List.splitOn_ne_nil 44 typelist)

/-- The loop reads the first four characters of each item. -/
theorem parseLoop_eq (t : Typeset) {typestr : CString} (hlength : typestr.length ≤ 4)
    (typelist : CString) {item : CString} {rest : List CString}
    (h : items typelist = item :: rest) :
    t.parseLoop typestr typelist = (t.setStr ((typestr ++ item).take 4)).bind fun t =>
      rest.foldlM (fun t item => t.setStr (item.take 4)) t := by
  induction typelist generalizing t typestr item rest with
  | nil =>
    rw [items, List.splitOn_nil] at h
    obtain ⟨rfl, rfl⟩ := List.cons.inj h
    rw [List.append_nil, List.take_of_length_le hlength]
    exact (bind_pure (t.setStr typestr)).symm
  | cons c typelist ih =>
    obtain ⟨item', rest', h'⟩ := exists_items_eq typelist
    rw [items, List.splitOn_cons_eq_if_modifyHead] at h
    rw [items] at h'
    rw [h'] at h
    rw [Typeset.parseLoop]
    by_cases hc : c = 44
    · rw [if_pos (beq_iff_eq.mpr hc)] at h
      obtain ⟨rfl, rfl⟩ := List.cons.inj h
      rw [if_pos hc, List.append_nil, List.take_of_length_le hlength]
      refine Option.bind_congr fun t' _ => ?_
      rw [ih t' length_nil_le_four h', List.nil_append]
      rfl
    · rw [if_neg (mt beq_iff_eq.mp hc), List.modifyHead_cons] at h
      obtain ⟨rfl, rfl⟩ := List.cons.inj h
      rw [if_neg hc]
      by_cases hroom : typestr.length < 4
      · have hlength' : (typestr ++ [c]).length ≤ 4 := by
          rw [List.length_append, List.length_singleton]
          exact hroom
        rw [if_pos hroom, ih t hlength' h', List.append_assoc, List.singleton_append]
      · have hfull : 4 ≤ typestr.length := Nat.not_lt.mp hroom
        rw [if_neg hroom, ih t hlength h', List.take_append_of_le_length hfull,
          List.take_append_of_le_length hfull]

/-- The text is read item by item. -/
theorem parse_eq {typelist : CString} (hne : typelist ≠ []) :
    Typeset.parse typelist =
      (items typelist).foldlM (fun t item => t.setStr (item.take 4)) Typeset.init := by
  obtain ⟨item, rest, h⟩ := exists_items_eq typelist
  rw [Typeset.parse, if_neg hne, parseLoop_eq _ length_nil_le_four _ h, h, List.nil_append]
  rfl

/-- Where the items are read, each is a number that is tracked, and these are added to the set. -/
theorem foldlM_setStr_eq_some {l : List CString} (hlength : ∀ s ∈ l, s.length ≤ 4)
    {t t' : Typeset} (h : l.foldlM Typeset.setStr t = some t') :
    (∀ s ∈ l, NumberTracked s) ∧
      ∀ type, t'.check type = true ↔ t.check type = true ∨ ∃ s ∈ l, decValue s = type := by
  induction l generalizing t with
  | nil =>
    obtain rfl := Option.some.inj h
    refine ⟨fun s hs => absurd hs List.not_mem_nil, fun type => (or_iff_left ?_).symm⟩
    rintro ⟨s, hs, -⟩
    exact List.not_mem_nil hs
  | cons s l ih =>
    rw [List.foldlM_cons, Option.bind_eq_bind, Option.bind_eq_some_iff] at h
    obtain ⟨t₁, hset, hrest⟩ := h
    rw [setStr_eq (hlength s List.mem_cons_self)] at hset
    by_cases hnumber : NumberTracked s
    · rw [if_pos hnumber] at hset
      obtain ⟨hall, hcheck⟩ := ih (fun r hr => hlength r (List.mem_cons_of_mem s hr)) hrest
      refine ⟨List.forall_mem_cons.mpr ⟨hnumber, hall⟩, fun type => ?_⟩
      rw [hcheck, check_set hset, List.exists_mem_cons_iff, or_assoc, eq_comm (a := type)]
    · rw [if_neg hnumber] at hset
      contradiction

theorem foldlM_setStr_eq_none {l : List CString} (hlength : ∀ s ∈ l, s.length ≤ 4)
    {t : Typeset} (h : l.foldlM Typeset.setStr t = none) : ¬ ∀ s ∈ l, NumberTracked s := by
  induction l generalizing t with
  | nil => contradiction
  | cons s l ih =>
    intro hall
    obtain ⟨hnumber, hall⟩ := List.forall_mem_cons.mp hall
    rw [List.foldlM_cons, setStr_eq (hlength s List.mem_cons_self), if_pos hnumber] at h
    cases hset : t.set (decValue s) with
    | none => exact set_eq_none_iff.mp hset hnumber.2.2
    | some t₁ =>
      rw [hset] at h
      exact ih (fun r hr => hlength r (List.mem_cons_of_mem s hr)) h hall

/-! ### Lists -/

/-- The texts that are lists of types: nothing, or numbers of tracked types with commas between. -/
def IsTypeList (typelist : CString) : Prop :=
  typelist = [] ∨ ∀ item ∈ items typelist, NumberTracked item

/-- The set of the numbers of a list. -/
def Lists (typelist : CString) (type : ℕ) : Prop :=
  typelist ≠ [] ∧ ∃ item ∈ items typelist, decValue item = type

/-- `rtcm_typeset_parse`, with what it leaves in `*this` and what it returns. -/
def rtcmTypesetParse (this : Typeset) (typelist : CString) : Typeset × ℤ :=
  match Typeset.parse typelist with
  | some t => (t, 0)
  | none => (this, -1)

/-- What reading a text should do to the set it is read into. -/
structure ReadsTypeList (this : Typeset) (typelist : CString) : Prop where
  accepted_iff : (rtcmTypesetParse this typelist).2 = 0 ↔ IsTypeList typelist
  check_iff : (rtcmTypesetParse this typelist).2 = 0 →
    ∀ type, (rtcmTypesetParse this typelist).1.check type = true ↔ Lists typelist type
  unchanged : (rtcmTypesetParse this typelist).2 = -1 → (rtcmTypesetParse this typelist).1 = this

theorem foldlM_setStr_of_parse {typelist : CString} (hne : typelist ≠ []) :
    Typeset.parse typelist =
      ((items typelist).map (List.take 4)).foldlM Typeset.setStr Typeset.init := by
  rw [parse_eq hne, List.foldlM_map]

theorem length_le_of_mem_map_take {l : List CString} : ∀ s ∈ l.map (List.take 4), s.length ≤ 4 := by
  intro s hs
  obtain ⟨item, -, rfl⟩ := List.mem_map.mp hs
  exact List.length_take_le 4 item

/-- **Acceptance.** A text is accepted if each item, cut to four characters, is a number that is
tracked. -/
theorem rtcmTypesetParse_eq_zero_iff {typelist : CString} (hne : typelist ≠ []) (this : Typeset) :
    (rtcmTypesetParse this typelist).2 = 0 ↔
      ∀ item ∈ items typelist, NumberTracked (item.take 4) := by
  rw [rtcmTypesetParse, ← List.forall_mem_map (P := NumberTracked)]
  split
  · next t ht =>
    rw [foldlM_setStr_of_parse hne] at ht
    exact iff_of_true rfl (foldlM_setStr_eq_some length_le_of_mem_map_take ht).1
  · next hnone =>
    rw [foldlM_setStr_of_parse hne] at hnone
    have hreturn : (-1 : ℤ) ≠ 0 := by decide
    exact iff_of_false hreturn (foldlM_setStr_eq_none length_le_of_mem_map_take hnone)

/-- What is in the set is read from the items cut to four characters. -/
theorem check_rtcmTypesetParse {typelist : CString} (hne : typelist ≠ []) {this : Typeset}
    (h : (rtcmTypesetParse this typelist).2 = 0) (type : ℕ) :
    (rtcmTypesetParse this typelist).1.check type = true ↔
      ∃ item ∈ items typelist, decValue (item.take 4) = type := by
  rw [rtcmTypesetParse] at h ⊢
  split at h
  · next t ht =>
    rw [foldlM_setStr_of_parse hne] at ht
    rw [(foldlM_setStr_eq_some length_le_of_mem_map_take ht).2, check_init,
      or_iff_right Bool.false_ne_true]
    constructor
    · rintro ⟨s, hs, htype⟩
      obtain ⟨item, hitem, rfl⟩ := List.mem_map.mp hs
      exact ⟨item, hitem, htype⟩
    · rintro ⟨item, hitem, htype⟩
      exact ⟨_, List.mem_map_of_mem hitem, htype⟩
  · contradiction

theorem rtcmTypesetParse_eq_self {this : Typeset} {typelist : CString}
    (h : (rtcmTypesetParse this typelist).2 = -1) : (rtcmTypesetParse this typelist).1 = this := by
  rw [rtcmTypesetParse] at h ⊢
  split at h
  · contradiction
  · rfl

/-- An item that is a number of a tracked type, and still one when it is cut, is not cut. -/
theorem length_le_four {item : CString} (hcut : NumberTracked (item.take 4))
    (h : NumberTracked item) : item.length ≤ 4 := by
  by_contra hlong
  have hcut' : 1000 ≤ decValue (item.take 4) := by
    have htracked := hcut.2.2
    rw [Tracked] at htracked
    omega
  have hpow : 10 ^ 1 ≤ 10 ^ (item.drop 4).length := by
    refine Nat.pow_le_pow_right (by decide) ?_
    rw [List.length_drop]
    omega
  have hvalue : decValue item =
      decValue (item.take 4) * 10 ^ (item.drop 4).length + decValue (item.drop 4) := by
    rw [← decValue_append, List.take_append_drop]
  have hmul := Nat.mul_le_mul hcut' hpow
  have htracked := h.2.2
  rw [Tracked] at htracked
  omega

/-- **When a text is read as a list of types.** Nothing may be cut off the items, unless the text is
refused as it should be. -/
theorem readsTypeList_iff (this : Typeset) (typelist : CString) :
    ReadsTypeList this typelist ↔
      (∀ item ∈ items typelist, item.length ≤ 4) ∨
        (∃ item ∈ items typelist, ¬ NumberTracked (item.take 4)) ∧
          ∃ item ∈ items typelist, ¬ NumberTracked item := by
  by_cases hne : typelist = []
  · subst hne
    have hitems : ∀ item ∈ items [], item.length ≤ 4 := by
      rw [items, List.splitOn_nil]
      exact List.forall_mem_singleton.mpr length_nil_le_four
    refine iff_of_true ⟨iff_of_true rfl (Or.inl rfl), fun _ type => ?_, rtcmTypesetParse_eq_self⟩
      (Or.inl hitems)
    have hempty : ¬ Lists [] type := fun h => h.1 rfl
    have hnone : (rtcmTypesetParse this []).1.check type ≠ true :=
      Bool.eq_false_iff.mp (check_init type)
    exact iff_of_false hnone hempty
  have hlist : IsTypeList typelist ↔ ∀ item ∈ items typelist, NumberTracked item :=
    or_iff_right hne
  constructor
  · intro h
    have hboth := (rtcmTypesetParse_eq_zero_iff hne this).symm.trans (h.accepted_iff.trans hlist)
    by_cases hcut : ∀ item ∈ items typelist, NumberTracked (item.take 4)
    · exact Or.inl fun item hitem => length_le_four (hcut item hitem) (hboth.mp hcut item hitem)
    · have hnot := mt hboth.mpr hcut
      push Not at hcut hnot
      exact Or.inr ⟨hcut, hnot⟩
  · rintro (hshort | ⟨hcut, hnot⟩)
    · have htake {item : CString} (hitem : item ∈ items typelist) : item.take 4 = item :=
        List.take_of_length_le (hshort item hitem)
      refine ⟨?_, fun h type => ?_, rtcmTypesetParse_eq_self⟩
      · rw [rtcmTypesetParse_eq_zero_iff hne, hlist]
        exact forall₂_congr fun item hitem => by rw [htake hitem]
      · rw [check_rtcmTypesetParse hne h, Lists, and_iff_right hne]
        refine exists_congr fun item => and_congr_right fun hitem => ?_
        rw [htake hitem]
    · have hcut' : (rtcmTypesetParse this typelist).2 ≠ 0 := by
        rw [Ne, rtcmTypesetParse_eq_zero_iff hne]
        push Not
        exact hcut
      have hnot' : ¬ IsTypeList typelist := by
        rw [hlist]
        push Not
        exact hnot
      exact ⟨iff_of_false hcut' hnot', fun h => absurd h hcut', rtcmTypesetParse_eq_self⟩

/-- The last character of `10050` is dropped, and the type 1005 is read. -/
theorem not_readsTypeList_cut : ¬ ReadsTypeList Typeset.init (cstr "10050") := by
  intro h
  have haccepted : (rtcmTypesetParse Typeset.init (cstr "10050")).2 = 0 := by decide +kernel
  rcases h.accepted_iff.mp haccepted with hnil | hitems
  · exact List.cons_ne_nil _ _ hnil
  · exact absurd hitems (by decide)

/-! ### Printing -/

/-- What `snprintf(rp, size, "%d,", i)` writes. -/
def snprintfType (size i : ℕ) : List Byte := (printNat 10 i ++ [44]).take (size - 1) ++ [0]

/-- The values of `i` in the two loops. -/
def types1k : List ℕ := List.range' 1000 231

def types4k : List ℕ := List.range' 4000 96

/-- The body of the loops of `rtcm_typeset_str` that print. The state is what `r` points to, and
`rp - r`. -/
def Typeset.printType (this : Typeset) (s : List Byte × ℕ) (i : ℕ) : Option (List Byte × ℕ) :=
  if this.check i then (store s.1 s.2 (snprintfType 6 i)).map fun r => (r, s.2 + 5) else some s

/-- The number `n` of types in the set, as `rtcm_typeset_str` counts it. -/
def Typeset.count (this : Typeset) : ℕ := types1k.countP this.check + types4k.countP this.check

/-- `rtcm_typeset_str`, in the buffer `r` that `strmalloc` returned. -/
def rtcmTypesetStr (this : Typeset) (r : List Byte) : Option (List Byte) := do
  let s ← types1k.foldlM this.printType (r, 0)
  let s ← types4k.foldlM this.printType s
  if this.count ≠ 0 then store s.1 (s.2 - 1) [0] else store s.1 s.2 [0]

/-- The types in a set, in increasing order. -/
def Typeset.members (this : Typeset) : List ℕ := (types1k ++ types4k).filter this.check

/-- What is printed for the types in the set. -/
def printed (l : List ℕ) : List Byte := l.flatMap fun i => printNat 10 i ++ [44]

theorem length_printed_one {i : ℕ} (h : Tracked i) : (printNat 10 i).length = 4 := by
  rw [Tracked] at h
  have hle : (printNat 10 i).length ≤ 4 := (length_printNat_le (by decide)).mpr (by omega)
  have hgt : ¬ (printNat 10 i).length ≤ 3 := mt (length_printNat_le (by decide)).mp (by omega)
  omega

theorem snprintfType_eq {i : ℕ} (h : Tracked i) :
    snprintfType 6 i = (printNat 10 i ++ [44]) ++ [0] := by
  have hlength : (printNat 10 i ++ [44]).length = 5 := by
    rw [List.length_append, length_printed_one h]
    rfl
  rw [snprintfType, List.take_of_length_le hlength.le]

theorem length_printed {l : List ℕ} (h : ∀ i ∈ l, Tracked i) :
    (printed l).length = l.length * 5 := by
  induction l with
  | nil => rfl
  | cons i l ih =>
    obtain ⟨hi, hl⟩ := List.forall_mem_cons.mp h
    have hcons : printed (i :: l) = (printNat 10 i ++ [44]) ++ printed l := List.flatMap_cons
    rw [hcons, List.length_append, List.length_append, length_printed_one hi, ih hl,
      List.length_singleton, List.length_cons]
    ring

/-- **One loop.** What is printed follows what was written, and leaves room for a last NUL. -/
theorem foldlM_printType (this : Typeset) (types : List ℕ) (r tail : List Byte)
    (hroom : types.countP this.check * 5 + 1 ≤ tail.length) :
    ∃ tail', tail'.length + types.countP this.check * 5 = tail.length ∧
      types.foldlM this.printType (r ++ tail, r.length) =
        some (r ++ printed (types.filter this.check) ++ tail',
          (r ++ printed (types.filter this.check)).length) := by
  induction types generalizing r tail with
  | nil =>
    refine ⟨tail, rfl, ?_⟩
    rw [List.filter_nil, printed, List.flatMap_nil, List.append_nil]
    rfl
  | cons i types ih =>
    rw [List.foldlM_cons, Typeset.printType]
    by_cases hi : this.check i = true
    · rw [List.countP_cons_of_pos hi] at hroom ⊢
      have hlength : (printNat 10 i ++ [44]).length = 5 := by
        rw [List.length_append, length_printed_one (tracked_of_check hi)]
        rfl
      have hlength' : (snprintfType 6 i).length = 6 := by
        rw [snprintfType_eq (tracked_of_check hi), List.length_append, hlength]
        rfl
      have hstore : store (r ++ tail) r.length (snprintfType 6 i) =
          some (r ++ (printNat 10 i ++ [44]) ++ (0 :: tail.drop 6)) := by
        rw [store_append (by omega), hlength', snprintfType_eq (tracked_of_check hi),
          List.append_assoc, List.append_assoc, List.append_assoc, List.append_assoc]
        rfl
      obtain ⟨tail', htail', hrest⟩ := ih (r ++ (printNat 10 i ++ [44])) (0 :: tail.drop 6) (by
        rw [List.length_cons, List.length_drop]
        omega)
      refine ⟨tail', ?_, ?_⟩
      · rw [List.length_cons, List.length_drop] at htail'
        omega
      · have hprinted : printed ((i :: types).filter this.check) =
            (printNat 10 i ++ [44]) ++ printed (types.filter this.check) := by
          rw [List.filter_cons_of_pos hi]
          exact List.flatMap_cons
        have hend : r.length + 5 = (r ++ (printNat 10 i ++ [44])).length := by
          rw [List.length_append, hlength]
        rw [if_pos hi, hstore, Option.map_some, Option.bind_eq_bind, Option.bind_some, hend, hrest,
          hprinted, List.append_assoc r]
    · rw [List.countP_cons_of_neg hi] at hroom ⊢
      rw [if_neg hi, List.filter_cons_of_neg hi]
      exact ih r tail hroom

theorem members_eq (this : Typeset) :
    this.members = types1k.filter this.check ++ types4k.filter this.check := List.filter_append _ _

theorem length_members (this : Typeset) : this.members.length = this.count := by
  rw [members_eq, List.length_append, Typeset.count, List.countP_eq_length_filter,
    List.countP_eq_length_filter]

/-- What the two loops leave: the text, with a byte left over. -/
theorem printed_members (this : Typeset) {r : List Byte} (hr : r.length = this.count * 5 + 1) :
    ∃ c, (do
      let s ← types1k.foldlM this.printType (r, 0)
      types4k.foldlM this.printType s) =
        some (printed this.members ++ [c], (printed this.members).length) := by
  have hcount : this.count = types1k.countP this.check + types4k.countP this.check := rfl
  obtain ⟨tail₁, htail₁, h₁⟩ := foldlM_printType this types1k [] r (by omega)
  obtain ⟨tail₂, htail₂, h₂⟩ := foldlM_printType this types4k
    ([] ++ printed (types1k.filter this.check)) tail₁ (by omega)
  obtain ⟨c, rfl⟩ := List.length_eq_one_iff.mp (show tail₂.length = 1 by omega)
  have hprinted : printed (types1k.filter this.check) ++ printed (types4k.filter this.check) =
      printed this.members := by
    rw [members_eq, printed, printed, printed, List.flatMap_append]
  rw [List.nil_append] at h₁ h₂
  rw [hprinted] at h₂
  refine ⟨c, ?_⟩
  have hzero : ([] : List Byte).length = 0 := rfl
  rw [hzero, List.nil_append] at h₁
  rw [h₁, Option.bind_eq_bind, Option.bind_some, h₂]

/-! ### The text that is printed -/

/-- The members with commas between them. -/
def typeList (this : Typeset) : CString :=
  [44].intercalate (this.members.map (printNat 10))

theorem printed_eq {l : List ℕ} (hne : l ≠ []) :
    printed l = [44].intercalate (l.map (printNat 10)) ++ [44] := by
  induction l with
  | nil => contradiction
  | cons i l ih =>
    have hcons : printed (i :: l) = (printNat 10 i ++ [44]) ++ printed l := List.flatMap_cons
    rw [hcons, List.map_cons]
    by_cases hl : l = []
    · subst hl
      rw [List.map_nil, List.intercalate_singleton]
      exact List.append_nil _
    · rw [ih hl, List.intercalate_cons_of_ne_nil (mt List.map_eq_nil_iff.mp hl)]
      simp only [List.append_assoc]

theorem mem_members {this : Typeset} {type : ℕ} :
    type ∈ this.members ↔ this.check type = true := by
  rw [Typeset.members, List.mem_filter]
  refine and_iff_right_of_imp fun h => ?_
  have htracked := tracked_of_check h
  rw [Tracked] at htracked
  rw [List.mem_append, types1k, types4k, List.mem_range'_1, List.mem_range'_1]
  omega

/-- **What is printed.** Nothing is written out of bounds, and the text is the members with commas
between them. -/
theorem rtcmTypesetStr_eq (this : Typeset) {r : List Byte} (hr : r.length = this.count * 5 + 1) :
    ∃ rest, rtcmTypesetStr this r = some (typeList this ++ 0 :: rest) ∧
      (typeList this ++ 0 :: rest).length = r.length := by
  obtain ⟨c, h⟩ := printed_members this hr
  have hloops : rtcmTypesetStr this r = (do
      let s ← types1k.foldlM this.printType (r, 0)
      types4k.foldlM this.printType s) >>= fun s =>
        if this.count ≠ 0 then store s.1 (s.2 - 1) [0] else store s.1 s.2 [0] := by
    rw [bind_assoc]
    rfl
  rw [hloops, h, Option.bind_eq_bind, Option.bind_some]
  by_cases hcount : this.count = 0
  · have hnil : this.members = [] :=
      List.eq_nil_of_length_eq_zero ((length_members this).trans hcount)
    rw [if_neg (not_not.mpr hcount), typeList, hnil]
    refine ⟨[], rfl, ?_⟩
    rw [hr, hcount]
    rfl
  · have hne : this.members ≠ [] := by
      intro hnil
      rw [← length_members, hnil] at hcount
      exact hcount rfl
    have htext : printed this.members ++ [c] = typeList this ++ [44, c] := by
      rw [printed_eq hne, List.append_assoc]
      rfl
    have hlength : (printed this.members).length = (typeList this).length + 1 := by
      rw [printed_eq hne, List.length_append]
      rfl
    have hcount' : (printed this.members).length = this.count * 5 := by
      rw [length_printed fun i hi => tracked_of_check (mem_members.mp hi), length_members]
    have hroom : [(0 : Byte)].length ≤ [44, c].length := Nat.le_add_left 1 1
    refine ⟨[c], ?_, ?_⟩
    · rw [if_pos hcount, htext, hlength, Nat.add_sub_cancel, store_append hroom]
      rfl
    · rw [List.length_append, List.length_cons, List.length_singleton]
      omega

theorem pairwise_members (this : Typeset) : this.members.Pairwise (· < ·) := by
  refine List.Pairwise.filter _ (List.pairwise_append.mpr
    ⟨List.pairwise_lt_range', List.pairwise_lt_range', fun i hi j hj => ?_⟩)
  rw [types1k, List.mem_range'_1] at hi
  rw [types4k, List.mem_range'_1] at hj
  omega

theorem comma_not_mem_printNat (i : ℕ) : (44 : Byte) ∉ printNat 10 i :=
  fun h => absurd (isdigit_printNat 44 h) (by decide)

theorem numberTracked_printNat {i : ℕ} (h : Tracked i) : NumberTracked (printNat 10 i) := by
  refine ⟨?_, isdigit_printNat, by rwa [decValue_printNat]⟩
  intro hnil
  have hlength := length_printed_one h
  rw [hnil] at hlength
  contradiction

theorem items_typeList {this : Typeset} (hne : this.members ≠ []) :
    items (typeList this) = this.members.map (printNat 10) := by
  refine List.splitOn_intercalate 44 ?_ (mt List.map_eq_nil_iff.mp hne)
  intro s hs
  obtain ⟨i, -, rfl⟩ := List.mem_map.mp hs
  exact comma_not_mem_printNat i

theorem typeList_ne_nil {this : Typeset} (hne : this.members ≠ []) : typeList this ≠ [] := by
  intro hnil
  have hitems := items_typeList hne
  rw [hnil, items, List.splitOn_nil] at hitems
  obtain ⟨i, hi, hprint⟩ := List.mem_map.mp (hitems ▸ List.mem_singleton_self _)
  exact (numberTracked_printNat (tracked_of_check (mem_members.mp hi))).1 hprint

/-- **What is printed is read back.** -/
theorem rtcmTypesetParse_typeList (this that : Typeset) :
    (rtcmTypesetParse that (typeList this)).2 = 0 ∧
      ∀ type, (rtcmTypesetParse that (typeList this)).1.check type = this.check type := by
  by_cases hne : this.members = []
  · have htext : typeList this = [] := by rw [typeList, hne]; rfl
    have hparse : rtcmTypesetParse that (typeList this) = (Typeset.init, 0) := by rw [htext]; rfl
    rw [hparse]
    refine ⟨rfl, fun type => ?_⟩
    rw [check_init]
    refine (Bool.eq_false_iff.mpr fun h => ?_).symm
    have hmem := mem_members.mpr h
    rw [hne] at hmem
    exact List.not_mem_nil hmem
  · have hprint {i : ℕ} (hi : i ∈ this.members) :
        NumberTracked (printNat 10 i) ∧ (printNat 10 i).take 4 = printNat 10 i := by
      have htracked := tracked_of_check (mem_members.mp hi)
      exact ⟨numberTracked_printNat htracked,
        List.take_of_length_le (length_printed_one htracked).le⟩
    have haccepted : (rtcmTypesetParse that (typeList this)).2 = 0 := by
      rw [rtcmTypesetParse_eq_zero_iff (typeList_ne_nil hne), items_typeList hne,
        List.forall_mem_map]
      intro i hi
      rw [(hprint hi).2]
      exact (hprint hi).1
    refine ⟨haccepted, fun type => Bool.eq_iff_iff.mpr ?_⟩
    rw [check_rtcmTypesetParse (typeList_ne_nil hne) haccepted, items_typeList hne,
      ← mem_members]
    constructor
    · rintro ⟨s, hs, htype⟩
      obtain ⟨i, hi, rfl⟩ := List.mem_map.mp hs
      rw [(hprint hi).2, decValue_printNat] at htype
      rwa [← htype]
    · intro htype
      exact ⟨_, List.mem_map_of_mem htype, by rw [(hprint htype).2, decValue_printNat]⟩

theorem nul_not_mem_typeList (this : Typeset) : (0 : Byte) ∉ typeList this := by
  intro h
  by_cases hne : this.members = []
  · rw [typeList, hne] at h
    exact List.not_mem_nil h
  · have hprinted : (0 : Byte) ∈ printed this.members := by
      rw [printed_eq hne]
      exact List.mem_append_left _ h
    obtain ⟨i, -, hi⟩ := List.mem_flatMap.mp hprinted
    rcases List.mem_append.mp hi with hi | hi
    · exact absurd (isdigit_printNat 0 hi) (by decide)
    · exact absurd (List.mem_singleton.mp hi) (by decide)

/-! ### Sets with the same types -/

/-- The bit of `set1k` that stands for no type is clear, as `rtcm_typeset_init` leaves it. -/
def Typeset.Clean (this : Typeset) : Prop := this.set1k[28].getLsbD 7 = false

theorem clean_init : Typeset.init.Clean := by
  rw [Typeset.Clean]
  decide

theorem div_231_lt : 231 / 8 < 29 := by decide

theorem clean_iff {this : Typeset} :
    this.Clean ↔ getbitAtomic this.set1k 231 div_231_lt = false := by
  rw [getbitAtomic_eq]
  exact Iff.rfl

theorem clean_set {this that : Typeset} {type : ℕ} (h : this.set type = some that)
    (hthis : this.Clean) : that.Clean := by
  rw [clean_iff] at hthis ⊢
  rw [Typeset.set] at h
  split at h
  · next h1k =>
    obtain rfl := Option.some.inj h
    have hne : type - 1000 ≠ 231 := by omega
    rw [getbitAtomic_setbitAtomic, hthis, decide_eq_false hne, Bool.or_false]
  · split at h
    · obtain rfl := Option.some.inj h
      exact hthis
    · contradiction

theorem eq_of_getbitAtomic {n : ℕ} {d e : Vector Byte n}
    (h : ∀ beg (hbeg : beg / 8 < n), getbitAtomic d beg hbeg = getbitAtomic e beg hbeg) :
    d = e := by
  refine Vector.ext fun i hi => BitVec.eq_of_getLsbD_eq fun j hj => ?_
  have hdiv : (8 * i + j) / 8 = i := by omega
  have hmod : (8 * i + j) % 8 = j := by omega
  have hbit := h (8 * i + j) (by omega)
  rw [getbitAtomic_eq, getbitAtomic_eq] at hbit
  simpa only [hdiv, hmod] using hbit

/-- Two sets with the same types are the same. -/
theorem eq_of_check_eq {this that : Typeset} (hthis : this.Clean) (hthat : that.Clean)
    (h : ∀ type, this.check type = that.check type) : this = that := by
  have h1k : this.set1k = that.set1k := by
    refine eq_of_getbitAtomic fun beg hbeg => ?_
    by_cases hlast : beg = 231
    · subst hlast
      exact (clean_iff.mp hthis).trans (clean_iff.mp hthat).symm
    · have hrange : 1000 ≤ 1000 + beg ∧ 1000 + beg ≤ 1230 := by omega
      have hcheck := h (1000 + beg)
      rw [Typeset.check, Typeset.check, dif_pos hrange, dif_pos hrange] at hcheck
      simpa only [Nat.add_sub_cancel_left] using hcheck
  have h4k : this.set4k = that.set4k := by
    refine eq_of_getbitAtomic fun beg hbeg => ?_
    have hnot : ¬ (1000 ≤ 4000 + beg ∧ 4000 + beg ≤ 1230) := by omega
    have hrange : 4000 ≤ 4000 + beg ∧ 4000 + beg ≤ 4095 := by omega
    have hcheck := h (4000 + beg)
    rw [Typeset.check, Typeset.check, dif_neg hnot, dif_neg hnot, dif_pos hrange,
      dif_pos hrange] at hcheck
    simpa only [Nat.add_sub_cancel_left] using hcheck
  rw [Typeset.mk.injEq]
  exact ⟨h1k, h4k⟩

theorem clean_foldlM_setStr {l : List CString} {t t' : Typeset} (ht : t.Clean)
    (h : l.foldlM Typeset.setStr t = some t') : t'.Clean := by
  induction l generalizing t with
  | nil => exact Option.some.inj h ▸ ht
  | cons s l ih =>
    rw [List.foldlM_cons, Option.bind_eq_bind, Option.bind_eq_some_iff] at h
    obtain ⟨t₁, hset, hrest⟩ := h
    refine ih ?_ hrest
    obtain ⟨v, -, hv⟩ := Option.bind_eq_some_iff.mp hset
    split at hv
    · contradiction
    · exact clean_set hv ht

theorem clean_rtcmTypesetParse {this : Typeset} {typelist : CString}
    (h : (rtcmTypesetParse this typelist).2 = 0) : (rtcmTypesetParse this typelist).1.Clean := by
  rw [rtcmTypesetParse] at h ⊢
  split at h
  · next t ht =>
    by_cases hne : typelist = []
    · rw [Typeset.parse, if_pos hne] at ht
      exact Option.some.inj ht ▸ clean_init
    · rw [foldlM_setStr_of_parse hne] at ht
      exact clean_foldlM_setStr clean_init ht
  · contradiction

/-! ### The text that is printed for a set -/

/-- What `rtcm_typeset_str` should leave in its buffer. -/
structure PrintsTypeset (this : Typeset) (r : List Byte) : Prop where
  /-- the text is the numbers of some types with commas between them -/
  text : ∃ types : List ℕ, types.Pairwise (· < ·) ∧
    (∀ type, type ∈ types ↔ this.check type = true) ∧
    toCString r = [44].intercalate (types.map (printNat 10))
  accepted : ∀ that, (rtcmTypesetParse that (toCString r)).2 = 0
  same_types : ∀ that type, (rtcmTypesetParse that (toCString r)).1.check type = this.check type
  same_set : this.Clean → ∀ that, (rtcmTypesetParse that (toCString r)).1 = this

/-- **Sets of types survive printing.** -/
theorem rtcmTypesetStr_prints (this : Typeset) (r : List Byte)
    (hr : r.length = this.count * 5 + 1) :
    ∃ r', rtcmTypesetStr this r = some r' ∧ r'.length = r.length ∧ PrintsTypeset this r' := by
  obtain ⟨rest, hstr, hlength⟩ := rtcmTypesetStr_eq this hr
  have htext : toCString (typeList this ++ 0 :: rest) = typeList this :=
    toCString_append_nul (nul_not_mem_typeList this) rest
  refine ⟨_, hstr, hlength, ⟨this.members, pairwise_members this, fun _ => mem_members, htext⟩,
    fun that => ?_, fun that type => ?_, fun hclean that => ?_⟩
  · rw [htext]
    exact (rtcmTypesetParse_typeList this that).1
  · rw [htext]
    exact (rtcmTypesetParse_typeList this that).2 type
  · obtain ⟨haccepted, hcheck⟩ := rtcmTypesetParse_typeList this that
    rw [htext]
    exact eq_of_check_eq (clean_rtcmTypesetParse haccepted) hclean hcheck

/-- The types 4072 and 1005, in the order in which they were seen. -/
def twoTypes : Typeset := ([4072, 1005].foldlM Typeset.set Typeset.init).getD Typeset.init

/-- Their set takes eleven bytes. -/
theorem rtcmTypesetStr_prints_two :
    ∃ r', rtcmTypesetStr twoTypes (List.replicate 11 255) = some r' ∧
      r'.length = (List.replicate 11 (255 : Byte)).length ∧ PrintsTypeset twoTypes r' :=
  rtcmTypesetStr_prints twoTypes (List.replicate 11 255) (by decide +kernel)

end Rtcm

end ChilopodCaster
