import ChilopodCaster.AccountEdits

/-!
# Account files as lists of accounts

A file of accounts is read into a list, and edited as a text. What an edit is for is said on the
list: an account is added at the end, the accounts with a key are gone, or the first account with a
key has another field.

The text has more in it than the list. A line that begins with `#` is a comment, so an account with
such a name is never read. A line without a newline takes what is added to the file. And a line is
copied up to the first NUL, where a carriage return that the parser has kept as a part of the last
field becomes the end of the line.

## Main definitions

* `account` — the account of a line, if it is neither empty nor a comment
* `AccountFormat` — what the fields of a line mean
* `FileEdit.onList` — what an edit is for
* `FileEdit.Safe` — the content of the file is such that the edit does it

## Main results

* `fileParse_eq` — a file is read line by line
* `AccountFormat.parse_effect_iff` — when an edit of the text is the edit of the list
-/

namespace ChilopodCaster

open Lines

/-! ### The account of a line -/

/-- A line, as the parser looks at it. -/
def lineText (line : List Byte) : CString := toCString (stripEol line)

/-- The first byte of a comment. -/
abbrev hash : Byte := 0x23

/-- The fields of a line that is neither empty nor a comment. -/
def account (line : List Byte) : Option (List CString) :=
  if lineText line ≠ [] ∧ (lineText line).head? ≠ some hash then
    some ((lineText line).splitOn colon)
  else none

/-- The accounts of these lines. -/
def accounts (ls : List (List Byte)) : List (List CString) := ls.filterMap account

theorem lineText_append_lf (l : List Byte) : lineText (l ++ [LF]) = lineText l := by
  rw [lineText, lineText, stripEol_append_lf]

theorem mapM_fields (nfields : ℕ) (ls : List (List CString)) :
    (ls.mapM fun pl => if pl.length = nfields then some pl else none) =
      if ∀ pl ∈ ls, pl.length = nfields then some ls else none := by
  induction ls with
  | nil => rfl
  | cons pl ls ih =>
    have hcons : (∀ q ∈ pl :: ls, q.length = nfields) ↔
        pl.length = nfields ∧ ∀ q ∈ ls, q.length = nfields := List.forall_mem_cons
    rw [List.mapM_cons, ih]
    by_cases hpl : pl.length = nfields
    · by_cases hls : ∀ q ∈ ls, q.length = nfields
      · rw [if_pos hpl, if_pos hls, if_pos (hcons.mpr ⟨hpl, hls⟩)]
        rfl
      · rw [if_pos hpl, if_neg hls, if_neg fun h => hls (hcons.mp h).2]
        rfl
    · rw [if_neg hpl, if_neg fun h => hpl (hcons.mp h).1]
      rfl

theorem lineFields_colon (line : CString) :
    lineFields (cstr ":") false line = line.splitOn colon := by
  have hcolon : cstr ":" = [colon] := by decide
  have hseps : (fun c : Byte => decide (c ∈ cstr ":")) = fun c => c == colon := by
    funext c
    rw [hcolon, decide_eq_decide.mpr List.mem_singleton]
    rfl
  rw [lineFields, hseps]
  exact List.filter_eq_self.mpr fun _ _ => rfl

theorem fileLines_eq (content : List Byte) :
    Sourcetable.fileLines content = (content.splitOn LF).map stripEol := rfl

/-- A file is read line by line. -/
theorem fileParse_eq (nfields : ℕ) (content : List Byte) :
    fileParse nfields (cstr ":") false content =
      if ∀ pl ∈ accounts (lines LF content), pl.length = nfields then
        some (accounts (lines LF content))
      else none := by
  have haccounts : (((Sourcetable.fileLines content).map toCString).filter fun line =>
      line ≠ [] ∧ line.head? ≠ some hash).map (lineFields (cstr ":") false) =
        accounts (lines LF content) := by
    have haccount : accounts (content.splitOn LF) = accounts (lines LF content) :=
      filterMap_splitOn account (fun l => by rw [account, lineText_append_lf]; rfl) rfl content
    rw [← haccount, fileLines_eq, List.map_map, List.filter_map, List.map_map, accounts,
      ← List.filterMap_eq_map, List.filterMap_filter]
    refine List.filterMap_congr fun line _ => ?_
    simp only [Function.comp_apply, lineFields_colon, decide_eq_true_iff]
    rfl
  rw [← haccounts, ← mapM_fields, List.mapM_map]
  rfl

theorem not_mem_lineText (line : List Byte) : 0 ∉ lineText line := not_mem_toCString _

/-- A line with a colon is a comment or not by its first field. -/
theorem account_of_length {line : List Byte} (h : 1 < ((lineText line).splitOn colon).length) :
    account line = if (field ((lineText line).splitOn colon) 0).head? = some hash then none
      else some ((lineText line).splitOn colon) := by
  obtain ⟨f, f', fs, hfields⟩ : ∃ f f' fs, (lineText line).splitOn colon = f :: f' :: fs := by
    rcases hfields : (lineText line).splitOn colon with - | ⟨f, - | ⟨f', fs⟩⟩
    · rw [hfields] at h
      exact absurd h (Nat.not_lt_zero 1)
    · rw [hfields] at h
      exact absurd h (Nat.lt_irrefl 1)
    · exact ⟨f, f', fs, rfl⟩
  have htext : lineText line = f ++ colon :: [colon].intercalate (f' :: fs) := by
    have hjoined : [colon].intercalate ((lineText line).splitOn colon) = lineText line :=
      List.intercalate_splitOn colon
    rw [← hjoined, hfields, List.intercalate_cons_cons, List.append_assoc, List.singleton_append]
  have hne : lineText line ≠ [] := by
    rw [htext]
    exact List.append_ne_nil_of_right_ne_nil _ (List.cons_ne_nil _ _)
  have hhead : (lineText line).head? = some hash ↔ f.head? = some hash := by
    rw [htext]
    cases f with
    | nil =>
      change some colon = some hash ↔ (none : Option Byte) = some hash
      decide
    | cons c f => exact Iff.rfl
  rw [hfields]
  change account line = if f.head? = some hash then none else some (f :: f' :: fs)
  rw [account, hfields]
  by_cases hcomment : f.head? = some hash
  · rw [if_pos hcomment, if_neg fun h => h.2 (hhead.mpr hcomment)]
  · rw [if_neg hcomment, if_pos ⟨hne, mt hhead.mp hcomment⟩]

theorem eq_of_account {line : List Byte} {r : List CString} (h : account line = some r) :
    (lineText line).splitOn colon = r := by
  rw [account] at h
  split at h
  · exact Option.some.inj h
  · contradiction

theorem head?_of_account {line : List Byte} {r : List CString} (h : account line = some r)
    (hlength : 1 < r.length) : (field r 0).head? ≠ some hash := by
  have hfields := eq_of_account h
  rw [account_of_length (by rwa [hfields]), hfields] at h
  split at h
  · contradiction
  · assumption

/-- A line that is put together from fields. -/
theorem lineText_joined {sep : Byte} (hsep : 0 ≠ sep) {fields : List CString}
    (hnul : ∀ field ∈ fields, 0 ∉ field) :
    lineText ([sep].intercalate fields ++ [LF]) = stripEol ([sep].intercalate fields) := by
  rw [lineText_append_lf, lineText]
  exact toCString_of_not_mem (mt mem_of_mem_stripEol (not_mem_joined hsep hnul))

theorem account_joined {fields : List CString} (hlength : 1 < fields.length)
    (hcolon : ∀ field ∈ fields, colon ∉ field) (hnul : ∀ field ∈ fields, 0 ∉ field) :
    account ([colon].intercalate fields ++ [LF]) =
      if (field fields 0).head? = some hash then none else some (stripLast fields) := by
  have hne : fields ≠ [] := by
    rintro rfl
    exact absurd hlength (by decide)
  have hsplit : (lineText ([colon].intercalate fields ++ [LF])).splitOn colon =
      stripLast fields := by
    rw [lineText_joined (by decide) hnul, splitOn_stripEol_intercalate (by decide) hne hcolon]
  have hfirst : field (stripLast fields) 0 = field fields 0 := by
    obtain ⟨f, fs, rfl⟩ := List.exists_cons_of_ne_nil hne
    have hfs : fs ≠ [] := by
      rintro rfl
      exact Nat.lt_irrefl 1 hlength
    rw [stripLast_cons hfs]
    rfl
  rw [account_of_length (by rwa [hsplit, length_stripLast]), hsplit, hfirst]

theorem lineText_printLine (line : List Byte) :
    lineText (printLine line) = stripEol (lineText line) := by
  rw [printLine, lineText_append_lf]
  exact toCString_of_not_mem (mt mem_of_mem_stripEol (not_mem_toCString _))

/-- A copy of a line without an account has none. -/
theorem account_printLine_of_none {line : List Byte} (h : account line = none) :
    account (printLine line) = none := by
  rw [account] at h ⊢
  rw [lineText_printLine]
  cases htext : lineText line with
  | nil => rfl
  | cons c text =>
    rw [htext] at h
    by_cases hc : c = hash
    · have hstrip : stripEol (c :: text) = c :: stripEol text :=
        stripEol_append_cons (by rw [hc]; decide) [] text
      rw [hstrip, hc]
      exact if_neg fun h => h.2 rfl
    · rw [if_pos ⟨List.cons_ne_nil c text, fun h => hc (Option.some.inj h)⟩] at h
      contradiction

theorem account_printLine_of_length {line : List Byte}
    (h : 1 < ((lineText line).splitOn colon).length) :
    account (printLine line) = (account line).map stripLast := by
  have hprint : printLine line = [colon].intercalate ((lineText line).splitOn colon) ++ [LF] := by
    rw [List.intercalate_splitOn]
    rfl
  rw [hprint, account_joined h (fun _ => not_mem_of_mem_splitOn)
    fun f hf h => not_mem_lineText line (mem_of_mem_splitOn hf h), account_of_length h]
  split
  · rfl
  · rfl

/-- A line that is copied. -/
theorem account_printLine {line : List Byte} (h : ∀ r ∈ account line, 1 < r.length) :
    account (printLine line) = (account line).map stripLast := by
  cases hline : account line with
  | none => exact account_printLine_of_none hline
  | some r =>
    have hr := h r hline
    rw [← hline]
    have h : 1 < ((lineText line).splitOn colon).length := by rwa [eq_of_account hline]
    exact account_printLine_of_length h

/-! ### Copies -/

/-- What becomes of the accounts when one field of the first with a key is set. A line is copied
without what would end it. -/
def copyAccounts (key : CString) (targetField : ℕ) (newValue : CString) :
    List (List CString) → List (List CString)
  | [] => []
  | r :: rs =>
    if field r 0 = key then stripLast (r.set targetField newValue) :: rs.map stripLast
    else stripLast r :: copyAccounts key targetField newValue rs

theorem copyAccounts_of_ne {key newValue : CString} {targetField : ℕ} {rs : List (List CString)}
    (h : ∀ r ∈ rs, field r 0 ≠ key) :
    copyAccounts key targetField newValue rs = rs.map stripLast := by
  induction rs with
  | nil => rfl
  | cons r rs ih =>
    rw [List.forall_mem_cons] at h
    rw [copyAccounts, if_neg h.1, ih h.2, List.map_cons]

theorem hasField_iff_lineText {key : CString} {line : List Byte} :
    HasField colon 0 key (stripEol line) ↔
      1 < ((lineText line).splitOn colon).length ∧
        field ((lineText line).splitOn colon) 0 = key := Iff.rfl

theorem accounts_map_printLine {ls : List (List Byte)} (h : ∀ r ∈ accounts ls, 1 < r.length) :
    accounts (ls.map printLine) = (accounts ls).map stripLast := by
  rw [accounts, accounts, List.filterMap_map, List.map_filterMap]
  refine List.filterMap_congr fun line hline => ?_
  exact account_printLine fun r hr => h r (List.mem_filterMap.mpr ⟨line, hline, hr⟩)

theorem accounts_cons (line : List Byte) (ls : List (List Byte)) :
    accounts (line :: ls) = (account line).toList ++ accounts ls := by
  rw [accounts, List.filterMap_cons]
  cases account line with
  | none => rfl
  | some r => rfl

theorem field_set {r : List CString} {targetField : ℕ} (htarget : 0 < targetField) (v : CString) :
    field (r.set targetField v) 0 = field r 0 := by
  cases r with
  | nil => rfl
  | cons f fs =>
    obtain ⟨i, rfl⟩ := Nat.exists_eq_succ_of_ne_zero htarget.ne'
    rfl

/-- The line in which a field is set. -/
theorem account_set {newValue : CString} (hvalue : Plain newValue) {targetField : ℕ}
    (htarget : 0 < targetField) {line : List Byte}
    (hlength : 1 < ((lineText line).splitOn colon).length) :
    account ([colon].intercalate (((lineText line).splitOn colon).set targetField newValue) ++
        [LF]) =
      (account line).map fun r => stripLast (r.set targetField newValue) := by
  have hmem {c : Byte} (hline : ∀ f ∈ (lineText line).splitOn colon, c ∉ f) (hnew : c ∉ newValue) :
      ∀ f ∈ ((lineText line).splitOn colon).set targetField newValue, c ∉ f := by
    intro f hf
    rcases List.mem_or_eq_of_mem_set hf with hf | rfl
    · exact hline f hf
    · exact hnew
  rw [account_joined (by rwa [List.length_set])
    (hmem (fun _ => not_mem_of_mem_splitOn) hvalue.1)
    (hmem (fun f hf h => not_mem_lineText line (mem_of_mem_splitOn hf h)) hvalue.2.2.2),
    field_set htarget, account_of_length hlength]
  split
  · rfl
  · rfl

theorem accounts_concat (ls : List (List Byte)) (line : List Byte) :
    accounts (ls ++ [line]) = accounts ls ++ (account line).toList := by
  rw [accounts, List.filterMap_append]
  exact congrArg (accounts ls ++ ·) ((accounts_cons line []).trans (List.append_nil _))

theorem accounts_setColonLines {key newValue : CString} (hvalue : Plain newValue) {targetField : ℕ}
    (htarget : 0 < targetField) {ls : List (List Byte)} (h : ∀ r ∈ accounts ls, 1 < r.length) :
    accounts (setColonLines colon key targetField newValue ls).1 =
      copyAccounts key targetField newValue (accounts ls) := by
  induction ls with
  | nil => rfl
  | cons line rest ih =>
    rw [accounts_cons, List.forall_mem_append] at h
    have hprint : account (printLine line) = (account line).map stripLast :=
      account_printLine fun r hr => h.1 r (Option.mem_toList.mpr hr)
    rw [setColonLines]
    by_cases hmatch : HasField colon 0 key (stripEol line)
    · rw [if_pos hmatch]
      obtain ⟨hlength, hkey⟩ := hasField_iff_lineText.mp hmatch
      rw [accounts_cons, accounts_cons, accounts_map_printLine h.2]
      change (account ([colon].intercalate (((lineText line).splitOn colon).set targetField
        newValue) ++ [LF])).toList ++ _ = _
      rw [account_set hvalue htarget hlength, account_of_length hlength]
      split
      · next hcomment =>
        -- a comment is changed, and no account has its key
        rw [hkey] at hcomment
        refine (copyAccounts_of_ne fun r hr hrkey => ?_).symm
        obtain ⟨line', -, hline'⟩ := List.mem_filterMap.mp hr
        exact head?_of_account hline' (h.2 r hr) (hrkey ▸ hcomment)
      · change _ = copyAccounts key targetField newValue (_ :: accounts rest)
        rw [copyAccounts, if_pos hkey]
        rfl
    · rw [if_neg hmatch]
      rw [accounts_cons, accounts_cons, ih h.2, hprint]
      cases hline : account line with
      | none => rfl
      | some r =>
        have hr : field r 0 ≠ key := by
          rintro hkey
          have hfields := eq_of_account hline
          refine hmatch (hasField_iff_lineText.mpr ?_)
          rw [hfields]
          exact ⟨h.1 r (by rw [hline]; exact List.mem_singleton_self r), hkey⟩
        change _ = copyAccounts key targetField newValue (r :: accounts rest)
        rw [copyAccounts, if_neg hr]
        rfl

/-! ### Lists of accounts -/

/-- What the fields of a line mean. The first one is the key, and the last one may stand for the
same as another one. -/
structure AccountFormat (ε : Type) where
  nfields : ℕ
  entry : List CString → ε
  key : ε → CString
  /-- an account with another field -/
  set : ℕ → CString → ε → ε
  /-- two values of the last field that stand for the same -/
  Same : CString → CString → Prop
  two_le : 2 ≤ nfields
  key_entry : ∀ r, key (entry r) = field r 0
  entry_set : ∀ r i v, r.length = nfields → 0 < i → entry (r.set i v) = set i v (entry r)
  entry_set_last_iff : ∀ r v, r.length = nfields →
    (entry (r.set (nfields - 1) v) = entry r ↔ Same v (field r (nfields - 1)))

/-- The first of these that has a property is changed. -/
def modifyFirst {α : Type} (p : α → Bool) (f : α → α) : List α → List α
  | [] => []
  | a :: l => if p a then f a :: l else a :: modifyFirst p f l

namespace AccountFormat

variable {ε : Type} (fmt : AccountFormat ε)

/-- The accounts in a file. -/
def parse (content : List Byte) : Option (List ε) :=
  (fileParse fmt.nfields (cstr ":") false content).map fun pls => pls.map fmt.entry

/-- The last field stands for the same if it is taken for the end of the line. -/
def Survives (r : List CString) : Prop :=
  fmt.Same (stripEol (field r (fmt.nfields - 1))) (field r (fmt.nfields - 1))

/-- The last fields survive a copy, in which one field of the first account with a key is set. -/
def Copyable (key : CString) (targetField : ℕ) (rs : List (List CString)) : Prop :=
  ∀ r ∈ if targetField + 1 = fmt.nfields then rs.eraseP fun r => field r 0 = key else rs,
    fmt.Survives r

/-- The fields that are written are those of an account. -/
def Fits : FileEdit → Prop
  | .append fields => fields.length = fmt.nfields ∧ ∀ f ∈ fields, Plain f
  | .drop _ => True
  | .remove _ => True
  | .setField _ targetField newValue =>
    0 < targetField ∧ targetField < fmt.nfields ∧ Plain newValue

end AccountFormat

/-- What an edit is for. -/
def FileEdit.onList {ε : Type} (fmt : AccountFormat ε) (entries : List ε) : FileEdit → List ε
  | append fields => entries ++ [fmt.entry fields]
  | drop key => entries.filter fun e => fmt.key e ≠ key
  | remove key => entries.filter fun e => fmt.key e ≠ key
  | setField key targetField newValue =>
    modifyFirst (fun e => fmt.key e = key) (fmt.set targetField newValue) entries

/-- The content of the file is such that the edit does what it is for. -/
def FileEdit.Safe {ε : Type} (fmt : AccountFormat ε) (content : List Byte) : FileEdit → Prop
  | append fields => Terminated LF content ∧ (field fields 0).head? ≠ some hash
  | drop _ => True
  | remove _ => True
  | setField key targetField _ => fmt.Copyable key targetField (accounts (lines LF content))

/-- The field is in the file that is to be changed. -/
def FileEdit.Found (content : List Byte) : FileEdit → Prop
  | append _ => True
  | drop _ => True
  | remove _ => True
  | setField key targetField newValue =>
    setColonFileField content colon key targetField newValue ≠ none

namespace AccountFormat

variable {ε : Type} {fmt : AccountFormat ε} {content : List Byte} {entries : List ε}

theorem parse_eq_some_iff : fmt.parse content = some entries ↔
    (∀ r ∈ accounts (lines LF content), r.length = fmt.nfields) ∧
      (accounts (lines LF content)).map fmt.entry = entries := by
  rw [parse, fileParse_eq, Option.map_eq_some_iff]
  constructor
  · rintro ⟨rs, hrs, rfl⟩
    obtain ⟨hlength, hrs⟩ := Option.ite_none_right_eq_some.mp hrs
    rw [← Option.some.inj hrs]
    exact ⟨hlength, rfl⟩
  · rintro ⟨hlength, rfl⟩
    exact ⟨_, if_pos hlength, rfl⟩

theorem one_lt_length {rs : List (List CString)} (h : ∀ r ∈ rs, r.length = fmt.nfields) :
    ∀ r ∈ rs, 1 < r.length := fun r hr => by
  rw [h r hr]
  exact fmt.two_le

/-! ### Accounts are removed -/

theorem hasField_iff_account {key : CString} {line : List Byte} {r : List CString}
    (hline : account line = some r) (hlength : 1 < r.length) :
    HasField colon 0 key line ↔ field r 0 = key := by
  rw [hasField_iff, ← row_stripEol, ← hasField_iff, hasField_iff_lineText, eq_of_account hline]
  exact and_iff_right hlength

theorem accounts_filter (key : CString) {ls : List (List Byte)}
    (h : ∀ r ∈ accounts ls, 1 < r.length) :
    accounts (ls.filter fun line => ¬ HasField colon 0 key line) =
      (accounts ls).filter fun r => field r 0 ≠ key := by
  rw [accounts, accounts, List.filterMap_filter, List.filter_filterMap]
  refine List.filterMap_congr fun line hline => ?_
  cases haccount : account line with
  | none => exact ite_self none
  | some r =>
    have hr : 1 < r.length := h r (List.mem_filterMap.mpr ⟨line, hline, haccount⟩)
    have hfield : (decide ¬ HasField colon 0 key line) = decide (field r 0 ≠ key) :=
      decide_eq_decide.mpr (not_congr (hasField_iff_account haccount hr))
    rw [Option.filter_some, hfield]

theorem parse_removed (hparse : fmt.parse content = some entries) (key : CString) :
    fmt.parse (removeMatchingLines content colon 0 key).1 =
      some (entries.filter fun e => fmt.key e ≠ key) := by
  obtain ⟨hlength, rfl⟩ := parse_eq_some_iff.mp hparse
  have hlines : lines LF (removeMatchingLines content colon 0 key).1 =
      (lines LF content).filter fun line => ¬ HasField colon 0 key line :=
    lines_flatten ((lined_lines content).filter _)
  rw [parse_eq_some_iff, hlines, accounts_filter key (one_lt_length hlength)]
  refine ⟨fun r hr => hlength r (List.mem_filter.mp hr).1, ?_⟩
  rw [List.filter_map]
  congr 1
  refine List.filter_congr fun r _ => ?_
  rw [Function.comp_apply, fmt.key_entry]

/-! ### A field of an account is set -/

theorem length_copyAccounts {key newValue : CString} {targetField n : ℕ}
    {rs : List (List CString)} (h : ∀ r ∈ rs, r.length = n) :
    ∀ r ∈ copyAccounts key targetField newValue rs, r.length = n := by
  have hmap : ∀ rs : List (List CString), (∀ r ∈ rs, r.length = n) →
      ∀ r ∈ rs.map stripLast, r.length = n := by
    intro rs h r hr
    obtain ⟨r', hr', rfl⟩ := List.mem_map.mp hr
    rw [length_stripLast, h r' hr']
  induction rs with
  | nil => exact h
  | cons r rs ih =>
    rw [List.forall_mem_cons] at h
    rw [copyAccounts]
    split
    · rw [List.forall_mem_cons, length_stripLast, List.length_set]
      exact ⟨h.1, hmap rs h.2⟩
    · rw [List.forall_mem_cons, length_stripLast]
      exact ⟨h.1, ih h.2⟩

theorem stripLast_eq_set {r : List CString} (h : r ≠ []) :
    stripLast r = r.set (r.length - 1) (stripEol (field r (r.length - 1))) := by
  induction r with
  | nil => contradiction
  | cons f fs ih =>
    cases fs with
    | nil => rfl
    | cons f' fs =>
      rw [stripLast_cons (List.cons_ne_nil f' fs), ih (List.cons_ne_nil f' fs)]
      rfl

theorem entry_stripLast_iff {r : List CString} (h : r.length = fmt.nfields) :
    fmt.entry (stripLast r) = fmt.entry r ↔ fmt.Survives r := by
  have hne : r ≠ [] := by
    rintro rfl
    have htwo := fmt.two_le
    rw [← h] at htwo
    exact Nat.not_succ_le_zero 1 htwo
  rw [stripLast_eq_set hne, h]
  exact fmt.entry_set_last_iff r _ h

theorem map_entry_stripLast_iff {rs : List (List CString)} (h : ∀ r ∈ rs, r.length = fmt.nfields) :
    (rs.map stripLast).map fmt.entry = rs.map fmt.entry ↔ ∀ r ∈ rs, fmt.Survives r := by
  rw [List.map_map, List.map_inj_left]
  exact forall₂_congr fun r hr => entry_stripLast_iff (h r hr)

theorem field_set_eq {r : List CString} {i : ℕ} (hi : i < r.length) (v : CString) :
    field (r.set i v) i = v := by
  rw [field, List.getD_eq_getElem?_getD, List.getElem?_set_self hi, Option.getD_some]

theorem field_set_ne {i j : ℕ} (h : i ≠ j) (r : List CString) (v : CString) :
    field (r.set i v) j = field r j := by
  rw [field, field, List.getD_eq_getElem?_getD, List.getD_eq_getElem?_getD, List.getElem?_set_ne h]

theorem same_self {r : List CString} (h : r.length = fmt.nfields) (v : CString) : fmt.Same v v := by
  have hlast : fmt.nfields - 1 < r.length := by
    have htwo := fmt.two_le
    omega
  have hset := (fmt.entry_set_last_iff (r.set (fmt.nfields - 1) v) v
    (by rw [List.length_set, h])).mp
    (by rw [List.set_set])
  rwa [field_set_eq hlast] at hset

/-- A field that is set replaces the last one, or leaves it as it was. -/
theorem survives_set_iff {newValue : CString} (hvalue : Plain newValue) {targetField : ℕ}
    {r : List CString} (h : r.length = fmt.nfields) :
    fmt.Survives (r.set targetField newValue) ↔
      targetField + 1 = fmt.nfields ∨ fmt.Survives r := by
  have htwo := fmt.two_le
  by_cases hlast : targetField + 1 = fmt.nfields
  · have htarget : fmt.nfields - 1 = targetField := by omega
    rw [Survives, htarget, field_set_eq (by omega), hvalue.stripEol]
    exact iff_of_true (same_self h newValue) (Or.inl hlast)
  · rw [Survives, field_set_ne (by omega)]
    exact (or_iff_right hlast).symm

theorem map_entry_copyAccounts_iff {key newValue : CString} (hvalue : Plain newValue)
    {targetField : ℕ} (hpos : 0 < targetField) {rs : List (List CString)}
    (h : ∀ r ∈ rs, r.length = fmt.nfields) :
    (copyAccounts key targetField newValue rs).map fmt.entry =
        modifyFirst (fun e => fmt.key e = key) (fmt.set targetField newValue)
          (rs.map fmt.entry) ↔ fmt.Copyable key targetField rs := by
  induction rs with
  | nil =>
    refine iff_of_true rfl fun r hr => ?_
    rw [List.eraseP_nil, ite_self] at hr
    exact absurd hr List.not_mem_nil
  | cons r rs ih =>
    rw [List.forall_mem_cons] at h
    rw [copyAccounts, List.map_cons, modifyFirst, fmt.key_entry, Copyable]
    by_cases hkey : field r 0 = key
    · have hset : (r.set targetField newValue).length = fmt.nfields := by rw [List.length_set, h.1]
      have herase : ((r :: rs).eraseP fun r => field r 0 = key) = rs := by
        rw [List.eraseP_cons, decide_eq_true hkey]
        rfl
      rw [if_pos hkey, if_pos (decide_eq_true hkey), herase,
        List.map_cons, List.cons_eq_cons, map_entry_stripLast_iff h.2,
        ← fmt.entry_set r _ _ h.1 hpos,
        entry_stripLast_iff hset, survives_set_iff hvalue h.1]
      split
      · next hlast => exact and_iff_right (Or.inl hlast)
      · next hlast => rw [List.forall_mem_cons, or_iff_right hlast]
    · have hcons : (if targetField + 1 = fmt.nfields then
          r :: rs.eraseP fun r => field r 0 = key else r :: rs) =
            r :: if targetField + 1 = fmt.nfields then rs.eraseP fun r => field r 0 = key
              else rs := by
        split
        · rfl
        · rfl
      have hfalse : ¬ decide (field r 0 = key) = true := by rwa [decide_eq_true_iff]
      have herase : ((r :: rs).eraseP fun r => field r 0 = key) =
          r :: rs.eraseP fun r => field r 0 = key := by
        rw [List.eraseP_cons, decide_eq_false hkey]
        rfl
      rw [if_neg hkey, if_neg hfalse, herase, List.map_cons, List.cons_eq_cons,
        entry_stripLast_iff h.1, ih h.2, hcons, List.forall_mem_cons]
      rfl

theorem parse_set_iff (hparse : fmt.parse content = some entries) {key newValue : CString}
    (hvalue : Plain newValue) {targetField : ℕ} (hpos : 0 < targetField) {copy : List Byte}
    (hcopy : setColonFileField content colon key targetField newValue = some copy) :
    fmt.parse copy = some (modifyFirst (fun e => fmt.key e = key) (fmt.set targetField newValue)
      entries) ↔ fmt.Copyable key targetField (accounts (lines LF content)) := by
  obtain ⟨hlength, rfl⟩ := parse_eq_some_iff.mp hparse
  rw [setColonFileField] at hcopy
  obtain ⟨hupdated, hcopy⟩ := Option.ite_none_right_eq_some.mp hcopy
  obtain rfl := Option.some.inj hcopy
  have hlines := lines_flatten (lined_of_forall
    (setColonLines_spec hvalue targetField (not_mem_stripEol_lines content) hupdated).1)
  rw [parse_eq_some_iff, hlines, accounts_setColonLines hvalue hpos (one_lt_length hlength),
    map_entry_copyAccounts_iff hvalue hpos hlength]
  exact and_iff_right (length_copyAccounts hlength)

/-! ### An account is added -/

theorem account_line_of_plain {fields : List CString} (hlength : 1 < fields.length)
    (hplain : ∀ f ∈ fields, Plain f) :
    account ([colon].intercalate fields ++ [LF]) =
      if (field fields 0).head? = some hash then none else some fields := by
  rw [account_joined hlength (fun f hf => (hplain f hf).1) fun f hf => (hplain f hf).2.2.2,
    stripLast_of_plain hplain]

theorem head_mem_of_account {line : List Byte} {r : List CString} (hr : account line = some r)
    {c : Byte} {text : List Byte} (hc : c ≠ colon) (htext : lineText line = c :: text) :
    c ∈ field r 0 := by
  rw [← eq_of_account hr, htext, List.splitOn_cons_eq_if_modifyHead,
    if_neg (by rwa [beq_iff_eq])]
  obtain ⟨f, fs, hfs⟩ := List.exists_cons_of_ne_nil (List.splitOn_ne_nil colon text)
  rw [hfs]
  exact List.mem_cons_self

theorem toCString_cons {c : Byte} (hc : c ≠ 0) (s : List Byte) :
    toCString (c :: s) = c :: toCString s := by
  rw [toCString, List.takeWhile_cons, decide_eq_true hc]
  rfl

theorem lineText_cons {c : Byte} (hc : ¬ (c = LF ∨ c = CR)) (line : List Byte) :
    lineText (c :: line) = toCString (c :: stripEol line) :=
  congrArg toCString (stripEol_append_cons hc [] line)

/-- What is added to a line that has no newline is not an account of its own. -/
theorem ne_of_account_append {b : List Byte} (hne : b ≠ []) (hb : LF ∉ b)
    (hnone : account b = none) {fields : List CString} (hlength : 1 < fields.length)
    (hplain : ∀ f ∈ fields, Plain f) {r : List CString}
    (hr : account (b ++ ([colon].intercalate fields ++ [LF])) = some r) :
    field r 0 ≠ field fields 0 := by
  obtain ⟨c, b, rfl⟩ := List.exists_cons_of_ne_nil hne
  rw [List.mem_cons, not_or] at hb
  obtain ⟨f, f', fs, rfl⟩ : ∃ f f' fs, fields = f :: f' :: fs := by
    rcases fields with - | ⟨f, - | ⟨f', fs⟩⟩
    · exact absurd hlength (Nat.not_lt_zero 1)
    · exact absurd hlength (Nat.lt_irrefl 1)
    · exact ⟨f, f', fs, rfl⟩
  by_cases hcr : c = CR
  · -- the carriage return is a part of the name
    have htext : lineText (c :: b ++ ([colon].intercalate (f :: f' :: fs) ++ [LF])) =
        c :: toCString (b ++ f ++ colon :: stripEol ([colon].intercalate (f' :: fs))) := by
      have hline : c :: b ++ [colon].intercalate (f :: f' :: fs) =
          c :: (b ++ f) ++ colon :: [colon].intercalate (f' :: fs) := by
        rw [List.intercalate_cons_cons]
        simp only [List.cons_append, List.append_assoc, List.nil_append]
      rw [← List.append_assoc, lineText_append_lf, hline, lineText,
        stripEol_append_cons (by decide), List.cons_append, toCString_cons (by rw [hcr]; decide)]
    intro hfield
    have hmem := head_mem_of_account hr (by rw [hcr]; decide) htext
    rw [hfield, hcr] at hmem
    exact (hplain f List.mem_cons_self).2.2.1 hmem
  · have heol : ¬ (c = LF ∨ c = CR) := fun h => h.elim (fun h => hb.1 h.symm) hcr
    rw [List.cons_append] at hr
    by_cases hnul : c = 0
    · rw [account, lineText_cons heol, hnul] at hr
      contradiction
    · rw [account, lineText_cons heol, toCString_cons hnul] at hr hnone
      by_cases hhash : c = hash
      · rw [if_neg fun h => h.2 (congrArg some hhash)] at hr
        contradiction
      · rw [if_pos ⟨List.cons_ne_nil _ _, fun h => hhash (Option.some.inj h)⟩] at hnone
        contradiction

/-- **An account is added, if the file ends with a newline and the name has no `#` in front.** -/
theorem parse_append_iff (hparse : fmt.parse content = some entries) {fields : List CString}
    (hlength : fields.length = fmt.nfields) (hplain : ∀ f ∈ fields, Plain f) :
    fmt.parse (content ++ ([colon].intercalate fields ++ [LF])) =
        some (entries ++ [fmt.entry fields]) ↔
      Terminated LF content ∧ (field fields 0).head? ≠ some hash := by
  obtain ⟨haccounts, rfl⟩ := parse_eq_some_iff.mp hparse
  have hone : 1 < fields.length := by rw [hlength]; exact fmt.two_le
  have hnl : LF ∉ [colon].intercalate fields :=
    not_mem_joined (by decide) fun f hf => (hplain f hf).2.1
  have hline : ∀ b, LF ∉ b → lines LF (b ++ ([colon].intercalate fields ++ [LF])) =
      [b ++ ([colon].intercalate fields ++ [LF])] := by
    intro b hb
    have hb : IsLine LF (b ++ ([colon].intercalate fields ++ [LF])) :=
      ⟨b ++ [colon].intercalate fields, by rw [List.mem_append, not_or]; exact ⟨hb, hnl⟩,
        (List.append_assoc _ _ _).symm⟩
    have hlines := lines_line_append hb []
    rwa [List.append_nil] at hlines
  have hnew : lines LF ([colon].intercalate fields ++ [LF]) =
      [[colon].intercalate fields ++ [LF]] :=
    hline [] List.not_mem_nil
  constructor
  · intro hadded
    obtain ⟨-, hadded⟩ := parse_eq_some_iff.mp hadded
    have hterminated : Terminated LF content := by
      by_contra hterminated
      obtain ⟨a, b, rfl, ha, hb, hbnl⟩ := exists_of_not_terminated hterminated
      rw [List.append_assoc, lines_append ha, lines_append ha, hline b hbnl, lines_last hb hbnl,
        accounts_concat, accounts_concat, List.map_append, List.map_append, List.append_assoc]
        at hadded
      have hlast := List.append_cancel_left hadded
      cases hnone : account b with
      | some r =>
        rw [hnone] at hlast
        have hle := congrArg List.length hlast
        cases haccount : account (b ++ ([colon].intercalate fields ++ [LF])) with
        | none =>
          rw [haccount] at hle
          simp at hle
        | some r' =>
          rw [haccount] at hle
          simp at hle
      | none =>
        rw [hnone] at hlast
        cases haccount : account (b ++ ([colon].intercalate fields ++ [LF])) with
        | none =>
          rw [haccount] at hlast
          contradiction
        | some r =>
          rw [haccount] at hlast
          have hentry : fmt.entry r = fmt.entry fields := (List.cons_eq_cons.mp hlast).1
          refine ne_of_account_append hb hbnl hnone hone hplain haccount ?_
          rw [← fmt.key_entry, ← fmt.key_entry, hentry]
    refine ⟨hterminated, fun hcomment => ?_⟩
    rw [lines_append hterminated, hnew, accounts_concat, account_line_of_plain hone hplain,
      if_pos hcomment, Option.toList_none, List.append_nil] at hadded
    exact List.cons_ne_nil _ _ (List.self_eq_append_right.mp hadded)
  · rintro ⟨hterminated, hcomment⟩
    have haccount : accounts (lines LF (content ++ ([colon].intercalate fields ++ [LF]))) =
        accounts (lines LF content) ++ [fields] := by
      rw [lines_append hterminated, hnew, accounts_concat, account_line_of_plain hone hplain,
        if_neg hcomment]
      rfl
    rw [parse_eq_some_iff, haccount, List.map_append, List.forall_mem_append]
    exact ⟨⟨haccounts, fun r hr => by rw [List.mem_singleton.mp hr, hlength]⟩, rfl⟩

/-- **When an edit of the text is the edit of the list.** -/
theorem parse_effect_iff (hparse : fmt.parse content = some entries) {edit : FileEdit}
    (hfits : fmt.Fits edit) (hfound : edit.Found content) :
    fmt.parse (edit.effect content) = some (edit.onList fmt entries) ↔ edit.Safe fmt content := by
  cases edit with
  | append fields => exact parse_append_iff hparse hfits.1 hfits.2
  | drop key => exact iff_of_true (parse_removed hparse key) trivial
  | remove key => exact iff_of_true (parse_removed hparse key) trivial
  | setField key targetField newValue =>
    obtain ⟨copy, hcopy⟩ := Option.ne_none_iff_exists'.mp hfound
    rw [FileEdit.effect, hcopy, Option.getD_some]
    exact parse_set_iff hparse hfits.2.2 hfits.1 hcopy

end AccountFormat

end ChilopodCaster
