import ChilopodCaster.Ip
import ChilopodCaster.Json

/-!
# How json-c prints

`json_object_to_json_string` prints a value on one line, with a space after each bracket and each
separator. A string is quoted, and the bytes that JSON does not allow in a string are escaped.

Two values that have the same structure, and the same numbers in it, can still differ in their
strings. They are then printed differently, which is what `eq_of_toJsonString` is about.

## Main definitions

* `Json.toJsonString` — `json_object_to_json_string`; how a `double` is printed is a parameter
* `Json.Alike` — two values that differ only in their strings

## Main results

* `Json.eq_of_toJsonString` — what is printed determines the strings
-/

namespace ChilopodCaster

namespace Json

/-! ### Strings -/

/-- A hexadecimal digit, as json-c prints it. -/
def hexChar (n : ℕ) : Byte := if n < 10 then BitVec.ofNat 8 (48 + n) else BitVec.ofNat 8 (87 + n)

/-- One byte of a string in `json_escape_str`. -/
def escapeByte (c : Byte) : List Byte :=
  if c = 8 then cstr "\\b"
  else if c = 10 then cstr "\\n"
  else if c = 13 then cstr "\\r"
  else if c = 9 then cstr "\\t"
  else if c = 12 then cstr "\\f"
  else if c = 0x22 then cstr "\\\""
  else if c = 0x5c then cstr "\\\\"
  else if c = 0x2f then cstr "\\/"
  else if c.toNat < 32 then cstr "\\u00" ++ [hexChar (c.toNat / 16), hexChar (c.toNat % 16)]
  else [c]

/-- What follows a backslash. -/
def unescapeAfter : List Byte → Option (Byte × List Byte)
  | [] => none
  | x :: s =>
    if x = 0x75 then
      some (BitVec.ofNat 8 ((hexDigit (s.getD 2 0)).getD 0 * 16 +
        (hexDigit (s.getD 3 0)).getD 0), s.drop 4)
    else if x = 0x62 then some (8, s)
    else if x = 0x6e then some (10, s)
    else if x = 0x72 then some (13, s)
    else if x = 0x74 then some (9, s)
    else if x = 0x66 then some (12, s)
    else some (x, s)

/-- The byte that a string of JSON starts with, and the rest. -/
def unescape : List Byte → Option (Byte × List Byte)
  | [] => none
  | c :: s => if c = 0x5c then unescapeAfter s else some (c, s)

theorem hexDigit_hexChar (c : Byte) : c.toNat < 32 →
    BitVec.ofNat 8 ((hexDigit (hexChar (c.toNat / 16))).getD 0 * 16 +
      (hexDigit (hexChar (c.toNat % 16))).getD 0) = c := by
  revert c
  decide +kernel

theorem unescape_escapeByte (c : Byte) (s : List Byte) :
    unescape (escapeByte c ++ s) = some (c, s) := by
  by_cases hplain : c ∈ ([8, 10, 13, 9, 12, 0x22, 0x5c, 0x2f] : List Byte)
  · simp only [List.mem_cons, List.not_mem_nil, or_false] at hplain
    rcases hplain with rfl | rfl | rfl | rfl | rfl | rfl | rfl | rfl <;> rfl
  · simp only [List.mem_cons, List.not_mem_nil, or_false, not_or] at hplain
    obtain ⟨h8, h10, h13, h9, h12, hquote, hback, hslash⟩ := hplain
    rw [escapeByte, if_neg h8, if_neg h10, if_neg h13, if_neg h9, if_neg h12, if_neg hquote,
      if_neg hback, if_neg hslash]
    by_cases hlow : c.toNat < 32
    · rw [if_pos hlow]
      exact congrArg (fun b => some (b, s)) (hexDigit_hexChar c hlow)
    · rw [if_neg hlow, List.singleton_append, unescape, if_neg hback]

theorem escapeByte_ne_quote (c : Byte) (s t : List Byte) : escapeByte c ++ s ≠ 0x22 :: t := by
  intro h
  have hread := unescape_escapeByte c s
  rw [h, unescape, if_neg (by decide)] at hread
  obtain ⟨rfl, rfl⟩ := Prod.mk.inj (Option.some.inj hread)
  have hlength := congrArg List.length h
  rw [List.length_append, List.length_cons] at hlength
  have htwo : (escapeByte 0x22).length = 2 := by decide
  omega

/-- A string in quotes. -/
def quote (s : CString) : List Byte := 0x22 :: (s.flatMap escapeByte ++ [0x22])

/-- The end of a string can be told, and so can its bytes. -/
theorem quote_append_inj {s s' : CString} {r r' : List Byte} (h : quote s ++ r = quote s' ++ r') :
    s = s' ∧ r = r' := by
  have h : s.flatMap escapeByte ++ 0x22 :: r = s'.flatMap escapeByte ++ 0x22 :: r' := by
    simpa [quote] using h
  induction s generalizing s' with
  | nil =>
    cases s' with
    | nil =>
      rw [List.flatMap_nil, List.nil_append, List.nil_append] at h
      exact ⟨rfl, (List.cons.inj h).2⟩
    | cons c s' =>
      rw [List.flatMap_nil, List.nil_append, List.flatMap_cons, List.append_assoc] at h
      exact absurd h.symm (escapeByte_ne_quote c _ _)
  | cons c s ih =>
    cases s' with
    | nil =>
      rw [List.flatMap_nil, List.nil_append, List.flatMap_cons, List.append_assoc] at h
      exact absurd h (escapeByte_ne_quote c _ _)
    | cons c' s' =>
      rw [List.flatMap_cons, List.flatMap_cons, List.append_assoc, List.append_assoc] at h
      have hread := congrArg unescape h
      rw [unescape_escapeByte, unescape_escapeByte] at hread
      obtain ⟨rfl, hrest⟩ := Prod.mk.inj (Option.some.inj hread)
      have hsame : quote s ++ r = quote s' ++ r' := by simpa [quote] using hrest
      obtain ⟨rfl, rfl⟩ := ih hsame hrest
      exact ⟨rfl, rfl⟩

/-! ### Values -/

/-- `snprintf` with `%lld`. -/
def printInt (i : ℤ) : CString :=
  if i < 0 then 0x2d :: printNat 10 i.natAbs else printNat 10 i.natAbs

mutual

/-- `json_object_to_json_string`. -/
def toJsonString (double : ℚ → CString) : Json → CString
  | null => cstr "null"
  | boolean b => if b then cstr "true" else cstr "false"
  | .double x => double x
  | int i => printInt i
  | string s => quote s
  | array l => cstr "[" ++ (arrayText double (cstr " ") l ++ cstr " ]")
  | object fields => cstr "\x7b" ++ (objectText double (cstr " ") fields ++ cstr " \x7d")

/-- The elements, with what stands before the first. -/
def arrayText (double : ℚ → CString) (sep : CString) : List Json → CString
  | [] => []
  | j :: l => sep ++ (toJsonString double j ++ arrayText double (cstr ", ") l)

/-- The fields, with what stands before the first. -/
def objectText (double : ℚ → CString) (sep : CString) : List (CString × Json) → CString
  | [] => []
  | (key, j) :: fields =>
    sep ++ (quote key ++ (cstr ": " ++
      (toJsonString double j ++ objectText double (cstr ", ") fields)))

end

mutual

/-- Two values with the same structure that differ only in their strings. -/
inductive Alike : Json → Json → Prop
  | refl (j : Json) : Alike j j
  | string (s s' : CString) : Alike (string s) (string s')
  | array {l l' : List Json} (h : AlikeList l l') : Alike (array l) (array l')
  | object {fields fields' : List (CString × Json)} (h : AlikeFields fields fields') :
    Alike (object fields) (object fields')

inductive AlikeList : List Json → List Json → Prop
  | nil : AlikeList [] []
  | cons {j j' : Json} {l l' : List Json} (h : Alike j j') (hl : AlikeList l l') :
    AlikeList (j :: l) (j' :: l')

inductive AlikeFields : List (CString × Json) → List (CString × Json) → Prop
  | nil : AlikeFields [] []
  | cons (key : CString) {j j' : Json} {fields fields' : List (CString × Json)} (h : Alike j j')
    (hl : AlikeFields fields fields') : AlikeFields ((key, j) :: fields) ((key, j') :: fields')

end

theorem AlikeFields.refl (fields : List (CString × Json)) : AlikeFields fields fields := by
  induction fields with
  | nil => exact .nil
  | cons field fields ih => exact .cons field.1 (.refl field.2) ih

theorem AlikeFields.append_left (fields : List (CString × Json))
    {rest rest' : List (CString × Json)} (h : AlikeFields rest rest') :
    AlikeFields (fields ++ rest) (fields ++ rest') := by
  induction fields with
  | nil => exact h
  | cons field fields ih => exact .cons field.1 (.refl field.2) ih

/-- Lists of values made in the same way from lists that correspond. -/
theorem AlikeList.map {α : Type} {R : α → α → Prop} (f : α → Json)
    (hf : ∀ a a', R a a' → Alike (f a) (f a')) {l l' : List α} (h : List.Forall₂ R l l') :
    AlikeList (l.map f) (l'.map f) := by
  induction h with
  | nil => exact .nil
  | cons h _ ih => exact .cons (hf _ _ h) ih

variable {double : ℚ → CString}

mutual

/-- The end of a value can be told from the value it is compared with, and so can its strings. -/
theorem toJsonString_append_inj {j j' : Json} (halike : Alike j j') {r r' : List Byte}
    (h : toJsonString double j ++ r = toJsonString double j' ++ r') : j = j' ∧ r = r' := by
  cases halike with
  | refl => exact ⟨rfl, List.append_cancel_left h⟩
  | string s s' =>
    rw [toJsonString, toJsonString] at h
    obtain ⟨rfl, rfl⟩ := quote_append_inj h
    exact ⟨rfl, rfl⟩
  | array hl =>
    rw [toJsonString, toJsonString, List.append_assoc, List.append_assoc, List.append_assoc,
      List.append_assoc] at h
    obtain ⟨rfl, hrest⟩ := arrayText_append_inj hl (List.append_cancel_left h)
    exact ⟨rfl, List.append_cancel_left hrest⟩
  | object hl =>
    rw [toJsonString, toJsonString, List.append_assoc, List.append_assoc, List.append_assoc,
      List.append_assoc] at h
    obtain ⟨rfl, hrest⟩ := objectText_append_inj hl (List.append_cancel_left h)
    exact ⟨rfl, List.append_cancel_left hrest⟩

theorem arrayText_append_inj {sep : CString} {l l' : List Json} (halike : AlikeList l l')
    {r r' : List Byte} (h : arrayText double sep l ++ r = arrayText double sep l' ++ r') :
    l = l' ∧ r = r' := by
  cases halike with
  | nil => exact ⟨rfl, h⟩
  | cons hj hl =>
    rw [arrayText, arrayText, List.append_assoc, List.append_assoc, List.append_assoc,
      List.append_assoc] at h
    obtain ⟨rfl, hrest⟩ := toJsonString_append_inj hj (List.append_cancel_left h)
    obtain ⟨rfl, rfl⟩ := arrayText_append_inj hl hrest
    exact ⟨rfl, rfl⟩

theorem objectText_append_inj {sep : CString} {fields fields' : List (CString × Json)}
    (halike : AlikeFields fields fields') {r r' : List Byte}
    (h : objectText double sep fields ++ r = objectText double sep fields' ++ r') :
    fields = fields' ∧ r = r' := by
  cases halike with
  | nil => exact ⟨rfl, h⟩
  | cons key hj hl =>
    simp only [objectText, List.append_assoc] at h
    have hvalue := List.append_cancel_left (List.append_cancel_left (List.append_cancel_left h))
    obtain ⟨rfl, hrest⟩ := toJsonString_append_inj hj hvalue
    obtain ⟨rfl, rfl⟩ := objectText_append_inj hl hrest
    exact ⟨rfl, rfl⟩

end

/-- **What is printed determines the strings.** -/
theorem eq_of_toJsonString {j j' : Json} (halike : Alike j j')
    (h : toJsonString double j = toJsonString double j') : j = j' := by
  have hnil : toJsonString double j ++ [] = toJsonString double j' ++ [] := by rw [h]
  exact (toJsonString_append_inj halike hnil).1

end Json

end ChilopodCaster
