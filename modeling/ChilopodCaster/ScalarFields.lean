import ChilopodCaster.SettingsWhole

/-!
# The number that a field is set to

A setting comes as a text. For a field of type `int` the text is read by `strtol`, which brings the
number into the range of `long`, and what it returns is cut down to an `int` without a look at it.
For a field of type `size_t` the text is read by `strtoul`, which returns the largest number in
place of one that is too large, and the opposite of a number after a minus sign. A minus sign is
looked for in the first place of the text only, and white space may come before it.

## Main definitions

* `scanNumber`, `strtolEnd`, `strtoulEnd` — the two functions, with the pointer `end`
* `applyScalarField` — `apply_scalar_field`
* `Denotes` — the integer that a text is the decimal form of
* `StoredAsWritten` — what is expected of a setting

## Main results

* `denotes_iff` — the functions read what the text denotes
* `TopField.content_assign` — the settings of the configuration are set by `apply_scalar_field`
* `storedAsWritten_iff` — a number is stored as it is written when it is in the range of its field
-/

namespace ChilopodCaster

/-! ### The function -/

/-- What `strtol` and `strtoul` read in base 10, before they bring it into their range, and the text
from `end` on. -/
def scanNumber (value : CString) : Option (ℤ × CString) :=
  let s := value.dropWhile isspace
  let neg := s.head? = some 0x2d
  let s := if s.head? = some 0x2d ∨ s.head? = some 0x2b then s.tail else s
  let digits := s.takeWhile isdigit
  if digits = [] then none
  else some (if neg then -(decValue digits : ℤ) else decValue digits, s.dropWhile isdigit)

/-- `strtol(value, &end, 10)`, and the text from `end` on. Without a number that is the whole
text. -/
def strtolEnd (value : CString) : ℤ × CString :=
  match scanNumber value with
  | some (n, rest) => (max (-2 ^ 63) (min (2 ^ 63 - 1) n), rest)
  | none => (0, value)

/-- `strtoul(value, &end, 10)`, and the text from `end` on. -/
def strtoulEnd (value : CString) : ℕ × CString :=
  match scanNumber value with
  | some (n, rest) => (strtoul n, rest)
  | none => (0, value)

/-- What `field_ptr` points to. -/
inductive ScalarField
  | string (s : Option CString)
  | int (n : ℤ)
  | size (n : ℕ)
  | float (x : ℚ)
  deriving DecidableEq

/-- The parameter `type`, which is the type of the field in every call. -/
def ScalarField.type : ScalarField → SettingsFieldType
  | string _ => .sftString
  | int _ => .sftInt
  | size _ => .sftSize
  | float _ => .sftFloat

/-- What a call of `apply_scalar_field` leaves: the value that it returns, the field, and `errmsg`,
if it is set. -/
structure Applied where
  ret : ℤ
  field : ScalarField
  errmsg : Option CString
  deriving DecidableEq

/-- `apply_scalar_field` -/
def applyScalarField (ext : SettingsText) (field : ScalarField) (value : CString) : Applied :=
  match field with
  | .string _ =>
    if value = [] ∨ fieldIsSafe value = false then
      ⟨-1, field, some (cstr "invalid or empty value for a setting")⟩
    else ⟨0, .string (some value), none⟩
  | .int _ =>
    let v := strtolEnd value
    if v.2 = value ∨ v.2 ≠ [] then
      ⟨-1, field, some (cstr "a numeric setting is not a valid integer")⟩
    else ⟨0, .int (BitVec.ofInt 32 v.1).toInt, none⟩
  | .size _ =>
    if value.head? = some 0x2d then
      ⟨-1, field, some (cstr "a size setting must be a positive integer")⟩
    else
      let v := strtoulEnd value
      if v.2 = value ∨ v.2 ≠ [] ∨ v.1 = 0 then
        ⟨-1, field, some (cstr "a size setting must be a positive integer")⟩
      else ⟨0, .size v.1, none⟩
  | .float _ =>
    match ext.strtod value with
    | none => ⟨-1, field, some (cstr "a numeric setting is not a valid number")⟩
    | some v => ⟨0, .float v, none⟩

/-! ### Numbers in texts -/

/-- The text is the decimal form of the integer: digits, after white space and a sign if they are
there. -/
def Denotes (value : CString) (n : ℤ) : Prop :=
  ∃ spaces sign digits, value = spaces ++ (sign ++ digits) ∧ (∀ c ∈ spaces, isspace c = true) ∧
    digits ≠ [] ∧ (∀ c ∈ digits, isdigit c = true) ∧
      ((sign = [] ∨ sign = [0x2b]) ∧ n = decValue digits ∨ sign = [0x2d] ∧ n = -decValue digits)

/-- The text after the white space and the sign. -/
def unsigned (value : CString) : CString :=
  let s := value.dropWhile isspace
  if s.head? = some 0x2d ∨ s.head? = some 0x2b then s.tail else s

variable {value rest : CString} {n : ℤ}

theorem wholeNumber_eq (value : CString) :
    wholeNumber value = (scanNumber value).bind fun r => if r.2 = [] then some r.1 else none := by
  unfold wholeNumber scanNumber
  extract_lets s neg s' digits
  by_cases hall : s'.all isdigit = true
  · have hdigits : digits = s' :=
      List.takeWhile_eq_self_iff.mpr (List.all_eq_true.mp hall)
    have hrest : s'.dropWhile isdigit = [] :=
      List.dropWhile_eq_nil_iff.mpr (List.all_eq_true.mp hall)
    rw [hdigits, hrest]
    by_cases hne : s' = []
    · rw [if_neg fun h => h.1 hne, if_pos hne]
      rfl
    · rw [if_pos ⟨hne, hall⟩, if_neg hne]
      rfl
  · have hrest : s'.dropWhile isdigit ≠ [] := fun hrest =>
      hall (List.all_eq_true.mpr (List.dropWhile_eq_nil_iff.mp hrest))
    rw [if_neg fun h => hall h.2]
    split
    · rfl
    · exact (if_neg hrest).symm

/-- A number that was read is not the empty text. -/
theorem ne_of_scanNumber (h : scanNumber value = some (n, rest)) : rest ≠ value := by
  have hsuffix : unsigned value <:+ value := by
    unfold unsigned
    extract_lets s
    split
    · exact (List.tail_suffix s).trans (List.dropWhile_suffix _)
    · exact List.dropWhile_suffix _
  have hscan : (unsigned value).takeWhile isdigit ≠ [] ∧
      rest = (unsigned value).dropWhile isdigit := by
    unfold scanNumber at h
    extract_lets s neg s' digits at h
    split at h
    · contradiction
    · next hdigits => exact ⟨hdigits, (Prod.mk.inj (Option.some.inj h)).2.symm⟩
  have hlength := congrArg List.length (@List.takeWhile_append_dropWhile _ isdigit (unsigned value))
  have hpos := List.length_pos_iff.mpr hscan.1
  have hle := hsuffix.length_le
  rw [List.length_append] at hlength
  intro heq
  have hrest := congrArg List.length (hscan.2.symm.trans heq)
  omega

theorem strtolEnd_eq (value : CString) :
    (strtolEnd value).2 = value ∨ (strtolEnd value).2 ≠ [] ↔ wholeNumber value = none := by
  rw [strtolEnd, wholeNumber_eq]
  cases h : scanNumber value with
  | none => exact iff_of_true (.inl rfl) rfl
  | some r =>
    obtain ⟨n, rest⟩ := r
    rw [or_iff_right (ne_of_scanNumber h), Option.bind_some]
    dsimp only
    by_cases hrest : rest = []
    · rw [if_pos hrest]
      exact iff_of_false (not_not_intro hrest) nofun
    · rw [if_neg hrest]
      exact iff_of_true hrest rfl

theorem scanNumber_of_wholeNumber (h : wholeNumber value = some n) :
    scanNumber value = some (n, []) := by
  rw [wholeNumber_eq] at h
  obtain ⟨r, hr, hn⟩ := Option.bind_eq_some_iff.mp h
  split at hn
  · next hrest =>
    rw [hr, ← Option.some.inj hn, ← hrest]
  · contradiction

theorem isdigit_disjoint {c : Byte} (h : isdigit c = true) :
    isspace c = false ∧ c ≠ 0x2d ∧ c ≠ 0x2b := by
  have hall : ∀ c : Byte, isdigit c = true → isspace c = false ∧ c ≠ 0x2d ∧ c ≠ 0x2b := by
    decide +kernel
  exact hall c h

/-- What comes after the white space starts with a sign or a digit. -/
theorem dropWhile_isspace_append {spaces t : CString} {c : Byte}
    (hspaces : ∀ c ∈ spaces, isspace c = true) (hc : isspace c = false) :
    (spaces ++ c :: t).dropWhile isspace = c :: t := by
  rw [List.dropWhile_append_of_pos hspaces, List.dropWhile_cons_of_neg]
  rw [hc]
  exact Bool.false_ne_true

/-- **The functions read what the text denotes.** -/
theorem denotes_iff : Denotes value n ↔ wholeNumber value = some n := by
  constructor
  · rintro ⟨spaces, sign, digits, rfl, hspaces, hne, hdigits, hsign⟩
    have hall : digits.all isdigit = true := List.all_eq_true.mpr hdigits
    rcases hsign with ⟨rfl | rfl, rfl⟩ | ⟨rfl, rfl⟩
    · obtain ⟨c, t, rfl⟩ := List.exists_cons_of_ne_nil hne
      obtain ⟨hspace, hminus, hplus⟩ := isdigit_disjoint (hdigits c List.mem_cons_self)
      have hno : ¬ ((c :: t).head? = some 0x2d ∨ (c :: t).head? = some 0x2b) := by
        rw [List.head?_cons, Option.some_inj, Option.some_inj]
        exact fun h => h.elim hminus hplus
      rw [wholeNumber, List.nil_append, dropWhile_isspace_append hspaces hspace]
      rw [if_neg hno, if_pos ⟨hne, hall⟩, if_neg fun h => hno (.inl h)]
    · have hplus : (0x2b :: digits : CString).head? = some 0x2d ∨
          (0x2b :: digits : CString).head? = some 0x2b := .inr rfl
      have hminus : (0x2b :: digits : CString).head? ≠ some 0x2d :=
        fun h => absurd (Option.some.inj h) (by decide)
      rw [wholeNumber, List.singleton_append, dropWhile_isspace_append hspaces (by decide),
        if_pos hplus, List.tail_cons, if_pos ⟨hne, hall⟩, if_neg hminus]
    · have hminus : (0x2d :: digits : CString).head? = some 0x2d := rfl
      have hsign : (0x2d :: digits : CString).head? = some 0x2d ∨
          (0x2d :: digits : CString).head? = some 0x2b := .inl hminus
      rw [wholeNumber, List.singleton_append, dropWhile_isspace_append hspaces (by decide),
        if_pos hsign, List.tail_cons, if_pos ⟨hne, hall⟩, if_pos hminus]
  · intro h
    unfold wholeNumber at h
    extract_lets s neg s' at h
    split at h
    · next hs' =>
      obtain ⟨hne, hall⟩ := hs'
      have hvalue : value = value.takeWhile isspace ++ s := List.takeWhile_append_dropWhile.symm
      have hdigits := List.all_eq_true.mp hall
      have hspaces : ∀ c ∈ value.takeWhile isspace, isspace c = true :=
        fun c hc => List.mem_takeWhile_imp hc
      by_cases hminus : s.head? = some 0x2d
      · obtain ⟨t, ht⟩ := List.head?_eq_some_iff.mp hminus
        have htail : s' = t := (if_pos (.inl hminus)).trans (congrArg List.tail ht)
        rw [if_pos hminus] at h
        refine ⟨_, [0x2d], t, ?_, hspaces, htail ▸ hne, htail ▸ hdigits, .inr ⟨rfl, ?_⟩⟩
        · rw [List.singleton_append, ← ht]
          exact hvalue
        · rw [← htail]
          exact (Option.some.inj h).symm
      rw [if_neg hminus] at h
      by_cases hplus : s.head? = some 0x2b
      · obtain ⟨t, ht⟩ := List.head?_eq_some_iff.mp hplus
        have htail : s' = t := (if_pos (.inr hplus)).trans (congrArg List.tail ht)
        refine ⟨_, [0x2b], t, ?_, hspaces, htail ▸ hne, htail ▸ hdigits, .inl ⟨.inr rfl, ?_⟩⟩
        · rw [List.singleton_append, ← ht]
          exact hvalue
        · rw [← htail]
          exact (Option.some.inj h).symm
      · have hself : s' = s := if_neg fun h => h.elim hminus hplus
        refine ⟨_, [], s, hvalue, hspaces, hself ▸ hne, hself ▸ hdigits, .inl ⟨.inl rfl, ?_⟩⟩
        rw [← hself]
        exact (Option.some.inj h).symm
    · contradiction

/-! ### What a call leaves -/

variable {ext : SettingsText}

theorem applyScalarField_int_of_none (old : ℤ) (h : wholeNumber value = none) :
    applyScalarField ext (.int old) value =
      ⟨-1, .int old, some (cstr "a numeric setting is not a valid integer")⟩ :=
  if_pos ((strtolEnd_eq value).mpr h)

theorem applyScalarField_int_of_some (old : ℤ) (h : wholeNumber value = some n) :
    applyScalarField ext (.int old) value = ⟨0, .int (strtolInt n), none⟩ := by
  have hno : ¬ (wholeNumber value = none) := by
    rw [h]
    exact Option.some_ne_none n
  rw [applyScalarField, if_neg fun hend => hno ((strtolEnd_eq value).mp hend), strtolEnd,
    scanNumber_of_wholeNumber h, strtolInt]

/-- What is refused of a size. -/
theorem sizeRefused_iff (value : CString) :
    (strtoulEnd value).2 = value ∨ (strtoulEnd value).2 ≠ [] ∨ (strtoulEnd value).1 = 0 ↔
      (wholeNumber value).map strtoul = none ∨ (wholeNumber value).map strtoul = some 0 := by
  have hend : (strtoulEnd value).2 = (strtolEnd value).2 := by
    rw [strtoulEnd, strtolEnd]
    cases scanNumber value <;> rfl
  rw [← or_assoc, hend, strtolEnd_eq, Option.map_eq_none_iff]
  cases h : wholeNumber value with
  | none => exact iff_of_true (.inl rfl) (.inl rfl)
  | some n =>
    rw [strtoulEnd, scanNumber_of_wholeNumber h, Option.map_some, Option.some_inj]

theorem applyScalarField_size (old : ℕ) (value : CString) :
    applyScalarField ext (.size old) value =
      if value.head? = some 0x2d ∨ (wholeNumber value).map strtoul = none ∨
          (wholeNumber value).map strtoul = some 0 then
        ⟨-1, .size old, some (cstr "a size setting must be a positive integer")⟩
      else ⟨0, .size (sizeValue value), none⟩ := by
  rw [applyScalarField]
  by_cases hhead : value.head? = some 0x2d
  · rw [if_pos hhead, if_pos (.inl hhead)]
  · rw [if_neg hhead]
    dsimp only
    by_cases hrefused : (wholeNumber value).map strtoul = none ∨
        (wholeNumber value).map strtoul = some 0
    · rw [if_pos ((sizeRefused_iff value).mpr hrefused), if_pos (.inr hrefused)]
    · rw [if_neg fun h => hrefused ((sizeRefused_iff value).mp h),
        if_neg fun h => h.elim hhead hrefused, sizeValue]
      cases h : wholeNumber value with
      | none => exact absurd (.inl (by rw [h]; rfl)) hrefused
      | some n => rw [strtoulEnd, scanNumber_of_wholeNumber h, Option.map_some, Option.getD_some]

/-! ### The settings of the configuration -/

/-- What a field of the configuration holds. -/
def TopField.content (edit : Config) : TopField → ScalarField
  | .string f => .string (edit.strings f)
  | .int f => .int (edit.ints f)
  | .size f => .size (edit.sizes f)
  | .float f => .float (edit.floats f)

theorem TopField.type_content (edit : Config) (field : TopField) :
    (field.content edit).type = field.type := by
  cases field <;> rfl

/-- The message is that of the refusal. -/
theorem applyScalarField_errmsg (field : ScalarField) (value : CString) :
    (applyScalarField ext field value).errmsg = scalarRefusal ext field.type value := by
  cases field with
  | string s =>
    rw [applyScalarField, ScalarField.type, scalarRefusal, apply_ite Applied.errmsg]
  | int old =>
    rw [ScalarField.type, scalarRefusal]
    cases h : wholeNumber value with
    | none => rw [applyScalarField_int_of_none old h]; exact (if_pos rfl).symm
    | some n => rw [applyScalarField_int_of_some old h]; exact (if_neg (Option.some_ne_none n)).symm
  | size old =>
    rw [applyScalarField_size, apply_ite Applied.errmsg, ScalarField.type, scalarRefusal]
  | float x =>
    rw [applyScalarField, ScalarField.type, scalarRefusal]
    cases ext.strtod value with
    | none => exact (if_pos rfl).symm
    | some v => exact (if_neg (Option.some_ne_none v)).symm

/-- A call fails when it sets the message, and then it leaves the field alone. -/
theorem applyScalarField_ret (field : ScalarField) (value : CString) :
    (applyScalarField ext field value).ret =
        (if (scalarRefusal ext field.type value).isSome then -1 else 0) ∧
      ((applyScalarField ext field value).ret ≠ 0 →
        (applyScalarField ext field value).field = field) := by
  rw [← applyScalarField_errmsg]
  cases field with
  | string s =>
    rw [applyScalarField]
    split
    · exact ⟨rfl, fun _ => rfl⟩
    · exact ⟨rfl, fun h => absurd rfl h⟩
  | int old =>
    cases h : wholeNumber value with
    | none => rw [applyScalarField_int_of_none old h]; exact ⟨rfl, fun _ => rfl⟩
    | some n => rw [applyScalarField_int_of_some old h]; exact ⟨rfl, fun h => absurd rfl h⟩
  | size old =>
    rw [applyScalarField_size]
    split
    · exact ⟨rfl, fun _ => rfl⟩
    · exact ⟨rfl, fun h => absurd rfl h⟩
  | float x =>
    rw [applyScalarField]
    cases ext.strtod value with
    | none => exact ⟨rfl, fun _ => rfl⟩
    | some v => exact ⟨rfl, fun h => absurd rfl h⟩

/-- **The settings of the configuration** are set by `apply_scalar_field`. -/
theorem TopField.content_assign (field : TopField) (edit : Config)
    (h : scalarRefusal ext field.type value = none) :
    field.content (field.assign ext value edit) =
      (applyScalarField ext (field.content edit) value).field := by
  have hret := @applyScalarField_errmsg ext (field.content edit) value
  rw [TopField.type_content, h] at hret
  cases field with
  | string f =>
    rw [TopField.content, TopField.content, applyScalarField] at *
    split at hret
    · exact absurd hret (Option.some_ne_none _)
    · next hok =>
      rw [if_neg hok, TopField.assign]
      exact congrArg ScalarField.string (Function.update_self ..)
  | int f =>
    rw [TopField.content] at *
    cases hn : wholeNumber value with
    | none =>
      rw [applyScalarField_int_of_none _ hn] at hret
      exact absurd hret (Option.some_ne_none _)
    | some n =>
      rw [TopField.content, applyScalarField_int_of_some _ hn, TopField.assign]
      refine congrArg ScalarField.int ((Function.update_self ..).trans ?_)
      rw [intValue, hn, Option.map_some, Option.getD_some]
  | size f =>
    rw [TopField.content, applyScalarField_size] at *
    split at hret
    · exact absurd hret (Option.some_ne_none _)
    · next hok =>
      rw [TopField.content, applyScalarField_size, if_neg hok, TopField.assign]
      exact congrArg ScalarField.size (Function.update_self ..)
  | float f =>
    rw [TopField.content, TopField.content, applyScalarField] at *
    cases hv : ext.strtod value with
    | none =>
      rw [hv] at hret
      exact absurd hret (Option.some_ne_none _)
    | some v =>
      rw [TopField.assign]
      refine congrArg ScalarField.float ((Function.update_self ..).trans ?_)
      rw [floatValue, hv, Option.getD_some]

/-! ### What is expected of a setting -/

/-- The integers that the type of the field represents, of those of a size the positive ones. -/
def Representable : ScalarField → ℤ → Prop
  | .int _, n => -2 ^ 31 ≤ n ∧ n < 2 ^ 31
  | .size _, n => 0 < n ∧ n ≤ SIZE_MAX
  | _, _ => False

/-- The field holds the integer. -/
def ScalarField.Holds : ScalarField → ℤ → Prop
  | .int m, n => m = n
  | .size m, n => (m : ℤ) = n
  | _, _ => False

/-- A text that is accepted denotes an integer of the type of the field, and the field is set to
that integer. A text that is refused leaves the field alone. -/
def StoredAsWritten (ext : SettingsText) (field : ScalarField) (value : CString) : Prop :=
  let applied := applyScalarField ext field value
  (applied.ret = 0 →
      ∃ n, Denotes value n ∧ Representable field n ∧ applied.field.Holds n) ∧
    (applied.ret ≠ 0 → applied.field = field)

theorem storedAsWritten_int_iff (old : ℤ) :
    StoredAsWritten ext (.int old) value ↔ FitsInt value := by
  rw [StoredAsWritten, and_iff_left (applyScalarField_ret _ _).2]
  cases h : wholeNumber value with
  | none =>
    rw [applyScalarField_int_of_none old h]
    refine iff_of_true (fun hret => absurd hret (by decide : (-1 : ℤ) ≠ 0)) fun n hn => ?_
    rw [h] at hn
    contradiction
  | some n =>
    rw [applyScalarField_int_of_some old h, FitsInt]
    constructor
    · intro hstored
      obtain ⟨m, hm, hrange, -⟩ := hstored rfl
      intro k hk
      rw [denotes_iff, hk] at hm
      rw [Option.some.inj hm]
      exact hrange
    · intro hfits _
      exact ⟨n, denotes_iff.mpr h, hfits n h, strtolInt_eq_iff.mpr (hfits n h)⟩

/-- A number of a size that is out of range is not refused. -/
theorem strtoul_ne_zero (h : ¬ (0 ≤ n ∧ n ≤ SIZE_MAX)) : strtoul n ≠ 0 := by
  have hmax : SIZE_MAX = 2 ^ 64 - 1 := rfl
  rw [strtoul, hmax]
  rw [hmax] at h
  split <;> omega

theorem storedAsWritten_size_iff (old : ℕ) : StoredAsWritten ext (.size old) value ↔
    (value.head? ≠ some 0x2d → FitsSize value) := by
  rw [StoredAsWritten, and_iff_left (applyScalarField_ret _ _).2, applyScalarField_size]
  by_cases hhead : value.head? = some 0x2d
  · rw [if_pos (.inl hhead)]
    exact iff_of_true (fun hret => absurd hret (by decide : (-1 : ℤ) ≠ 0)) fun h => absurd hhead h
  rw [forall_prop_of_true hhead]
  cases h : wholeNumber value with
  | none =>
    rw [if_pos (.inr (.inl rfl))]
    refine iff_of_true (fun hret => absurd hret (by decide : (-1 : ℤ) ≠ 0)) fun n hn => ?_
    rw [h] at hn
    contradiction
  | some n =>
    have hfits : FitsSize value ↔ 0 ≤ n ∧ n ≤ SIZE_MAX := by
      rw [FitsSize, h]
      exact ⟨fun hall => hall n rfl, fun hn m hm => Option.some.inj hm ▸ hn⟩
    rw [hfits, Option.map_some, sizeValue, h, Option.map_some, Option.getD_some]
    by_cases hzero : strtoul n = 0
    · rw [hzero, if_pos (.inr (.inr rfl))]
      refine iff_of_true (fun hret => absurd hret (by decide : (-1 : ℤ) ≠ 0)) ?_
      exact by_contra fun hout => strtoul_ne_zero hout hzero
    · have hok : ¬ (value.head? = some 0x2d ∨ some (strtoul n) = none ∨
          some (strtoul n) = some 0) := by
        rintro (hminus | hnone | hsome)
        · exact hhead hminus
        · exact Option.some_ne_none _ hnone
        · exact hzero (Option.some.inj hsome)
      rw [if_neg hok]
      constructor
      · intro hstored
        obtain ⟨m, hm, hrange, -⟩ := hstored rfl
        rw [denotes_iff, h] at hm
        rw [Option.some.inj hm]
        exact ⟨hrange.1.le, hrange.2⟩
      · intro hn _
        have hvalue : strtoul n = n.toNat := strtoul_eq_iff.mpr hn
        have hcast : ((strtoul n : ℕ) : ℤ) = n := by rw [hvalue, Int.toNat_of_nonneg hn.1]
        refine ⟨n, denotes_iff.mpr h, ⟨?_, hn.2⟩, hcast⟩
        omega

/-- **Numbers are stored as they are written** when they are in the range of the field. For a size,
a text that starts with a minus sign is refused in any case. -/
theorem storedAsWritten_iff (ext : SettingsText) (value : CString) :
    (∀ old : ℤ, StoredAsWritten ext (.int old) value ↔ FitsInt value) ∧
      ∀ old : ℕ, StoredAsWritten ext (.size old) value ↔
        (value.head? ≠ some 0x2d → FitsSize value) :=
  ⟨storedAsWritten_int_iff, storedAsWritten_size_iff⟩

/-- A number with no use of code outside the caster. -/
def plainText : SettingsText where
  strtod := fun _ => none
  tokenerParse := fun _ => .null
  text := fun _ => []

/-- A number that is 2³² is accepted for an `int`, and zero is stored. A number below zero is
accepted for a size when white space comes before it. -/
theorem not_storedAsWritten_wide :
    ¬ ∀ (ext : SettingsText) (field : ScalarField) (value : CString),
      field.type = .sftInt ∨ field.type = .sftSize → StoredAsWritten ext field value := by
  intro hall
  have happlied : applyScalarField plainText (.int 10) (cstr "4294967296") = ⟨0, .int 0, none⟩ := by
    decide +kernel
  obtain ⟨n, hn, -, hholds⟩ := (hall plainText (.int 10) (cstr "4294967296") (.inl rfl)).1
    (by rw [happlied])
  rw [happlied] at hholds
  obtain rfl : (0 : ℤ) = n := hholds
  rw [denotes_iff] at hn
  exact absurd hn (by decide +kernel)

end ChilopodCaster
