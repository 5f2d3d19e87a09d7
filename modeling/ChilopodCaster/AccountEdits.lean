import ChilopodCaster.AccountFiles
import ChilopodCaster.Lib.Lines
import ChilopodCaster.Lib.Refusal
import Mathlib.Data.List.DropRight

/-!
# Edits of the account files

The settings API edits the files of accounts in place. A line is added at the end of the file; the
lines of an account are left out of a copy of the file; one field of one line is changed in a copy.
The copy then takes the place of the file.

What an edit is for is said on rows, which are lists of fields. On lines it is not always done: a
line that is added to a file without a newline at its end becomes part of the last one, and a field
that the line does not have is not changed.

## Main definitions

* `removeMatchingLines`, `setColonFileField` — the two copies
* `AccountEdit` — one edit of one file
* `FileEdit.Made` — what it is for

## Main results

* `AccountEdit.made_iff` — when it is done
-/

namespace ChilopodCaster

open Lines

/-! ### The copies -/

/-- The fields of a line up to a NUL. -/
def colonFields (sep : Byte) (line : List Byte) : List CString := (toCString line).splitOn sep

/-- A line has a separator after the field of this index, and the field is `value`. -/
def HasField (sep : Byte) (fieldIndex : ℕ) (value : CString) (line : List Byte) : Prop :=
  fieldIndex + 1 < (colonFields sep line).length ∧
    (colonFields sep line).getD fieldIndex [] = value

instance instDecidablePredHasField (sep : Byte) (fieldIndex : ℕ) (value : CString) :
    DecidablePred (HasField sep fieldIndex value) :=
  fun line => inferInstanceAs (Decidable (fieldIndex + 1 < (colonFields sep line).length ∧
    (colonFields sep line).getD fieldIndex [] = value))

/-- `remove_matching_lines`: the copy, and how many lines it lacks. -/
def removeMatchingLines (content : List Byte) (sep : Byte) (fieldIndex : ℕ) (value : CString) :
    List Byte × ℕ :=
  (((lines LF content).filter fun line => ¬ HasField sep fieldIndex value line).flatten,
    ((lines LF content).filter fun line => HasField sep fieldIndex value line).length)

/-- A line without the newline and the carriage returns at its end. -/
def stripEol (line : List Byte) : List Byte := line.rdropWhile fun c => c = LF ∨ c = CR

/-- A line of the copy in `set_colon_file_field`: what is before a NUL, and a newline. -/
def printLine (line : List Byte) : List Byte := toCString (stripEol line) ++ [LF]

/-- The lines of the copy in `set_colon_file_field`, and whether one was updated. -/
def setColonLines (sep : Byte) (key : CString) (targetField : ℕ) (newValue : CString) :
    List (List Byte) → List (List Byte) × Bool
  | [] => ([], false)
  | line :: rest =>
    if HasField sep 0 key (stripEol line) then
      (([sep].intercalate ((colonFields sep (stripEol line)).set targetField newValue) ++ [LF]) ::
        rest.map printLine, true)
    else
      let copy := setColonLines sep key targetField newValue rest
      (printLine line :: copy.1, copy.2)

/-- `set_colon_file_field`: the copy, if a line was updated. -/
def setColonFileField (content : List Byte) (sep : Byte) (key : CString) (targetField : ℕ)
    (newValue : CString) : Option (List Byte) :=
  let copy := setColonLines sep key targetField newValue (lines LF content)
  if copy.2 then some copy.1.flatten else none

/-! ### Edits -/

/-- An edit of a file whose fields are separated by colons. -/
inductive FileEdit
  /-- a line with these fields is added -/
  | append (fields : List CString)
  /-- the lines with this key are left out, if there are any -/
  | drop (key : CString)
  /-- the lines with this key are left out -/
  | remove (key : CString)
  /-- one field of the first line with this key is changed -/
  | setField (key : CString) (targetField : ℕ) (newValue : CString)
  deriving DecidableEq, Repr

/-- The messages about a file. -/
structure AccountTexts where
  cannotOpen : CString
  cannotRewrite : CString
  notPresent : CString
  deriving DecidableEq, Repr

/-- An edit of one file. -/
structure AccountEdit where
  filename : CString
  texts : AccountTexts
  edit : FileEdit
  deriving DecidableEq, Repr

/-- What the system allows. -/
structure FileEnv where
  /-- the file can be opened at its end, or created -/
  appendable : CString → Bool
  /-- a copy of the file can be written, and take its place -/
  rewritable : CString → Bool

/-- A file gets another content. -/
def Files.write (files : Files) (filename : CString) (content : List Byte) : Files :=
  fun name => if name = filename then some content else files name

/-- The colon. -/
abbrev colon : Byte := 0x3a

/-- What an edit makes of the content of the file. -/
def FileEdit.effect (content : List Byte) : FileEdit → List Byte
  | append fields => content ++ ([colon].intercalate fields ++ [LF])
  | drop key => (removeMatchingLines content colon 0 key).1
  | remove key => (removeMatchingLines content colon 0 key).1
  | setField key targetField newValue =>
    (setColonFileField content colon key targetField newValue).getD content

namespace AccountEdit

/-- The message with which an edit fails. Nothing is changed then. -/
def refusal (env : FileEnv) (this : AccountEdit) (files : Files) : Option CString :=
  match this.edit with
  | .append _ => if env.appendable this.filename then none else some this.texts.cannotOpen
  | .drop _ =>
    if files this.filename = none ∨ env.rewritable this.filename = false then
      some this.texts.cannotRewrite
    else none
  | .remove key =>
    if files this.filename = none ∨ env.rewritable this.filename = false then
      some this.texts.cannotRewrite
    else if (removeMatchingLines ((files this.filename).getD []) colon 0 key).2 = 0 then
      some this.texts.notPresent
    else none
  | .setField key targetField newValue =>
    if files this.filename = none ∨ env.rewritable this.filename = false then
      some this.texts.cannotRewrite
    else if (setColonFileField ((files this.filename).getD []) colon key targetField
        newValue).isNone then
      some this.texts.notPresent
    else none

/-- What an edit does. -/
def effect (this : AccountEdit) (files : Files) : Files :=
  files.write this.filename (this.edit.effect ((files this.filename).getD []))

end AccountEdit

/-! ### Rows -/

/-- The fields of a line, without what ends it. -/
def row (line : List Byte) : List CString := (stripEol (toCString line)).splitOn colon

/-- The content of a file as rows of fields. -/
def rows (content : List Byte) : List (List CString) := (lines LF content).map row

/-- The key of a row is its first field, if there is another one. -/
def HasKey (key : CString) (r : List CString) : Prop := 1 < r.length ∧ r.getD 0 [] = key

instance instDecidablePredHasKey (key : CString) : DecidablePred (HasKey key) :=
  fun r => inferInstanceAs (Decidable (1 < r.length ∧ r.getD 0 [] = key))

/-- What an edit is for: a row is added, the rows with a key are gone, or the first row with a key
has a new field. -/
def FileEdit.Made (before after : List (List CString)) : FileEdit → Prop
  | append fields => after = before ++ [fields]
  | drop key => after = before.filter fun r => ¬ HasKey key r
  | remove key => after = before.filter fun r => ¬ HasKey key r
  | setField key targetField newValue => ∃ first r rest, before = first ++ r :: rest ∧
      (∀ r' ∈ first, ¬ HasKey key r') ∧ HasKey key r ∧ targetField < r.length ∧
      after = first ++ r.set targetField newValue :: rest

/-- A string can stand in a field: it has no separator, and nothing that ends a line or a string. -/
def Plain (s : CString) : Prop := colon ∉ s ∧ LF ∉ s ∧ CR ∉ s ∧ 0 ∉ s

/-- What an edit writes can stand in fields. -/
def FileEdit.Plain : FileEdit → Prop
  | append fields => fields ≠ [] ∧ ∀ field ∈ fields, ChilopodCaster.Plain field
  | drop _ => True
  | remove _ => True
  | setField _ _ newValue => ChilopodCaster.Plain newValue

/-! ### Lines and C strings -/

theorem stripEol_append_cons {c : Byte} (hc : ¬ (c = LF ∨ c = CR)) (a r : List Byte) :
    stripEol (a ++ c :: r) = a ++ c :: stripEol r := by
  induction r using List.reverseRecOn with
  | nil =>
    rw [stripEol, List.rdropWhile_concat_neg _ _ _ (by rwa [decide_eq_true_iff])]
    rfl
  | append_singleton r d ih =>
    rw [← List.cons_append, ← List.append_assoc, stripEol, stripEol]
    by_cases hd : d = LF ∨ d = CR
    · rw [List.rdropWhile_concat_pos _ _ _ (by rwa [decide_eq_true_iff]),
        List.rdropWhile_concat_pos _ _ _ (by rwa [decide_eq_true_iff])]
      exact ih
    · rw [List.rdropWhile_concat_neg _ _ _ (by rwa [decide_eq_true_iff]),
        List.rdropWhile_concat_neg _ _ _ (by rwa [decide_eq_true_iff]), List.append_assoc,
        List.cons_append]

theorem stripEol_append_lf (s : List Byte) : stripEol (s ++ [LF]) = stripEol s :=
  List.rdropWhile_concat_pos _ _ _ (by decide)

theorem stripEol_stripEol (s : List Byte) : stripEol (stripEol s) = stripEol s :=
  List.rdropWhile_idempotent _ s

theorem mem_of_mem_stripEol {c : Byte} {s : List Byte} (h : c ∈ stripEol s) : c ∈ s :=
  (List.rdropWhile_prefix _ s).subset h

theorem Plain.stripEol {s : CString} (h : Plain s) : stripEol s = s := by
  rw [ChilopodCaster.stripEol, List.rdropWhile_eq_self_iff]
  intro hne
  rw [decide_eq_true_iff]
  have hlast := List.getLast_mem hne
  rintro (hlf | hcr)
  · exact h.2.1 (hlf ▸ hlast)
  · exact h.2.2.1 (hcr ▸ hlast)

/-- What ends a line does not matter, before a NUL or after it. -/
theorem stripEol_toCString_stripEol (s : List Byte) :
    stripEol (toCString (stripEol s)) = stripEol (toCString s) := by
  by_cases h : (0 : Byte) ∈ s
  · obtain ⟨a, r, rfl, ha⟩ := List.eq_append_cons_of_mem h
    rw [stripEol_append_cons (by decide), toCString_append_nul ha, toCString_append_nul ha]
  · rw [toCString_of_not_mem h, toCString_of_not_mem (mt mem_of_mem_stripEol h), stripEol_stripEol]

theorem row_stripEol (line : List Byte) : row (stripEol line) = row line := by
  rw [row, row, stripEol_toCString_stripEol]

/-- Copying a line does not change its fields. -/
theorem row_printLine (line : List Byte) : row (printLine line) = row line := by
  have hnul : 0 ∉ toCString (stripEol line) ++ [LF] := by
    rw [List.mem_append, not_or]
    exact ⟨not_mem_toCString _, by decide⟩
  rw [row, printLine, toCString_of_not_mem hnul, stripEol_append_lf, stripEol_toCString_stripEol,
    row]

/-! ### Fields -/

/-- The last field without what ends the line. -/
def stripLast : List CString → List CString
  | [] => []
  | [field] => [stripEol field]
  | field :: fields => field :: stripLast fields

theorem stripLast_cons {fields : List CString} (h : fields ≠ []) (field : CString) :
    stripLast (field :: fields) = field :: stripLast fields := by
  cases fields with
  | nil => contradiction
  | cons field' fields => rfl

theorem stripLast_ne_nil {fields : List CString} (h : fields ≠ []) : stripLast fields ≠ [] := by
  obtain ⟨field, fields, rfl⟩ := List.exists_cons_of_ne_nil h
  cases fields with
  | nil => exact List.cons_ne_nil _ _
  | cons field' fields => exact List.cons_ne_nil _ _

theorem stripEol_intercalate {sep : Byte} (hsep : ¬ (sep = LF ∨ sep = CR))
    {fields : List CString} (h : fields ≠ []) :
    stripEol ([sep].intercalate fields) = [sep].intercalate (stripLast fields) := by
  induction fields with
  | nil => contradiction
  | cons field fields ih =>
    by_cases hfields : fields = []
    · rw [hfields, stripLast, List.intercalate_singleton, List.intercalate_singleton]
    · rw [stripLast_cons hfields, List.intercalate_cons_of_ne_nil hfields,
        List.intercalate_cons_of_ne_nil (stripLast_ne_nil hfields), List.append_assoc,
        List.append_assoc, List.singleton_append, List.singleton_append,
        stripEol_append_cons hsep, ih hfields]

theorem not_mem_stripLast {c : Byte} {fields : List CString} (h : ∀ field ∈ fields, c ∉ field) :
    ∀ field ∈ stripLast fields, c ∉ field := by
  induction fields with
  | nil =>
    intro field hfield
    exact absurd hfield List.not_mem_nil
  | cons field fields ih =>
    rw [List.forall_mem_cons] at h
    by_cases hfields : fields = []
    · rw [hfields, stripLast]
      intro field' hfield'
      obtain rfl := List.mem_singleton.mp hfield'
      exact mt mem_of_mem_stripEol h.1
    · rw [stripLast_cons hfields, List.forall_mem_cons]
      exact ⟨h.1, ih h.2⟩

/-- The fields of a line that is put together from fields. -/
theorem splitOn_stripEol_intercalate {sep : Byte} (hsep : ¬ (sep = LF ∨ sep = CR))
    {fields : List CString} (hne : fields ≠ []) (h : ∀ field ∈ fields, sep ∉ field) :
    (stripEol ([sep].intercalate fields)).splitOn sep = stripLast fields := by
  rw [stripEol_intercalate hsep hne]
  exact List.splitOn_intercalate sep (not_mem_stripLast h) (stripLast_ne_nil hne)

/-- The fields of a string without the end of its line. -/
theorem splitOn_stripEol {sep : Byte} (hsep : ¬ (sep = LF ∨ sep = CR)) (s : CString) :
    (stripEol s).splitOn sep = stripLast (s.splitOn sep) := by
  rw [← splitOn_stripEol_intercalate hsep (List.splitOn_ne_nil sep s)
    fun _ => not_mem_of_mem_splitOn, List.intercalate_splitOn]

theorem row_eq_stripLast (line : List Byte) : row line = stripLast (colonFields colon line) :=
  splitOn_stripEol (by decide) _

theorem length_stripLast (fields : List CString) : (stripLast fields).length = fields.length := by
  induction fields with
  | nil => rfl
  | cons field fields ih =>
    by_cases hfields : fields = []
    · rw [hfields, stripLast]
      rfl
    · rw [stripLast_cons hfields, List.length_cons, List.length_cons, ih]

theorem hasKey_stripLast {key : CString} {fields : List CString} :
    HasKey key (stripLast fields) ↔ HasKey key fields := by
  rw [HasKey, HasKey, length_stripLast]
  refine and_congr_right fun hlength => ?_
  cases fields with
  | nil => exact Iff.rfl
  | cons field fields =>
    have hfields : fields ≠ [] := by
      rintro rfl
      exact Nat.lt_irrefl 1 hlength
    rw [stripLast_cons hfields]
    exact Iff.rfl

/-- The test of the source, on rows. -/
theorem hasField_iff {key : CString} {line : List Byte} :
    HasField colon 0 key line ↔ HasKey key (row line) := by
  rw [row_eq_stripLast, hasKey_stripLast]
  exact Iff.rfl

theorem stripLast_set {newValue : CString} (h : stripEol newValue = newValue)
    (fields : List CString) (targetField : ℕ) :
    stripLast (fields.set targetField newValue) = (stripLast fields).set targetField newValue := by
  induction fields generalizing targetField with
  | nil => rfl
  | cons field fields ih =>
    by_cases hfields : fields = []
    · subst hfields
      cases targetField with
      | zero => rw [stripLast, List.set_cons_zero, List.set_cons_zero, stripLast, h]
      | succ targetField => rfl
    · cases targetField with
      | zero =>
        rw [List.set_cons_zero, stripLast_cons hfields, stripLast_cons hfields, List.set_cons_zero]
      | succ targetField =>
        have hset : fields.set targetField newValue ≠ [] := by
          rwa [ne_eq, List.set_eq_nil_iff]
        rw [List.set_cons_succ, stripLast_cons hset, stripLast_cons hfields, List.set_cons_succ, ih]

/-! ### Rows of the copies -/

theorem stripLast_of_plain {fields : List CString} (h : ∀ field ∈ fields, Plain field) :
    stripLast fields = fields := by
  induction fields with
  | nil => rfl
  | cons field fields ih =>
    rw [List.forall_mem_cons] at h
    by_cases hfields : fields = []
    · rw [hfields, stripLast, h.1.stripEol]
    · rw [stripLast_cons hfields, ih h.2]

theorem rows_flatten {ls : List (List Byte)} (h : ∀ l ∈ ls, IsLine LF l) :
    rows ls.flatten = ls.map row := by
  rw [rows, lines_flatten (lined_of_forall h)]

/-- A symbol that no field has is not in a line of such fields. -/
theorem not_mem_joined {c sep : Byte} (hc : c ≠ sep) {fields : List CString}
    (h : ∀ field ∈ fields, c ∉ field) : c ∉ [sep].intercalate fields := by
  intro hmem
  rcases mem_intercalate hmem with hcolon | ⟨field, hfield, hmem⟩
  · exact hc hcolon
  · exact h field hfield hmem

/-- The row of a line that is put together from fields. -/
theorem row_joined {fields : List CString} (hne : fields ≠ [])
    (hcolon : ∀ field ∈ fields, colon ∉ field) (hnul : ∀ field ∈ fields, 0 ∉ field) :
    row ([colon].intercalate fields ++ [LF]) = stripLast fields := by
  have hline : 0 ∉ [colon].intercalate fields ++ [LF] := by
    rw [List.mem_append, not_or]
    exact ⟨not_mem_joined (by decide) hnul, by decide⟩
  rw [row, toCString_of_not_mem hline, stripEol_append_lf,
    splitOn_stripEol_intercalate (by decide) hne hcolon]

/-- **A row is added, if the file ends with a newline.** -/
theorem append_made_iff {fields : List CString} (hplain : (FileEdit.append fields).Plain)
    (content : List Byte) :
    (FileEdit.append fields).Made (rows content)
        (rows ((FileEdit.append fields).effect content)) ↔ Terminated LF content := by
  have hline : IsLine LF ([colon].intercalate fields ++ [LF]) :=
    ⟨_, not_mem_joined (by decide) fun field hfield => (hplain.2 field hfield).2.1, rfl⟩
  have hlines : lines LF ([colon].intercalate fields ++ [LF]) =
      [[colon].intercalate fields ++ [LF]] := by
    have happend := lines_line_append hline []
    rwa [List.append_nil] at happend
  have hrow : row ([colon].intercalate fields ++ [LF]) = fields := by
    rw [row_joined hplain.1 (fun field hfield => (hplain.2 field hfield).1)
      fun field hfield => (hplain.2 field hfield).2.2.2, stripLast_of_plain hplain.2]
  rw [FileEdit.Made, FileEdit.effect, rows, rows]
  constructor
  · intro hmade
    by_contra hterminated
    have hone := length_lines_append hterminated (List.append_ne_nil_of_right_ne_nil
      ([colon].intercalate fields) (List.cons_ne_nil LF []))
    have hlength := congrArg List.length hmade
    rw [List.length_map, List.length_append, List.length_map, List.length_singleton] at hlength
    rw [hlines, List.length_singleton] at hone
    omega
  · intro hterminated
    rw [lines_append hterminated, hlines, List.map_append, List.map_singleton, hrow]

/-- The rows with a key are gone. -/
theorem rows_removeMatchingLines (content : List Byte) (key : CString) :
    rows (removeMatchingLines content colon 0 key).1 =
      (rows content).filter fun r => ¬ HasKey key r := by
  rw [removeMatchingLines, rows, rows, lines_flatten ((lined_lines content).filter _),
    List.filter_map]
  congr 1
  refine List.filter_congr fun line _ => ?_
  rw [Function.comp_apply, decide_eq_decide, hasField_iff]

/-- The line is copied without what ends it, and a newline. -/
theorem isLine_printLine {line : List Byte} (h : LF ∉ stripEol line) :
    IsLine LF (printLine line) := ⟨_, mt mem_of_mem_toCString h, rfl⟩

theorem map_row_printLine (ls : List (List Byte)) : (ls.map printLine).map row = ls.map row := by
  rw [List.map_map]
  exact List.map_congr_left fun line _ => row_printLine line

theorem not_mem_stripEol_lines (content : List Byte) :
    ∀ l ∈ lines LF content, LF ∉ stripEol l := by
  intro l hl
  rcases (lined_lines content).isLine_or l hl with ⟨body, hbody, rfl⟩ | hlast
  · rw [stripEol_append_lf]
    exact mt mem_of_mem_stripEol hbody
  · exact mt mem_of_mem_stripEol hlast

/-- One field of the first row with a key is set. -/
theorem setColonLines_spec {key newValue : CString} (hvalue : Plain newValue) (targetField : ℕ)
    {ls : List (List Byte)} (hls : ∀ l ∈ ls, LF ∉ stripEol l)
    (hupdated : (setColonLines colon key targetField newValue ls).2 = true) :
    (∀ l ∈ (setColonLines colon key targetField newValue ls).1, IsLine LF l) ∧
      ∃ first r rest, ls.map row = first ++ r :: rest ∧ (∀ r' ∈ first, ¬ HasKey key r') ∧
        HasKey key r ∧ (setColonLines colon key targetField newValue ls).1.map row =
          first ++ r.set targetField newValue :: rest := by
  induction ls with
  | nil => contradiction
  | cons line rest ih =>
    rw [List.forall_mem_cons] at hls
    rw [setColonLines] at hupdated ⊢
    by_cases hmatch : HasField colon 0 key (stripEol line)
    · rw [if_pos hmatch]
      have hkey : HasKey key (row line) := by rwa [← row_stripEol, ← hasField_iff]
      have hfields : (colonFields colon (stripEol line)).set targetField newValue ≠ [] := by
        rw [ne_eq, List.set_eq_nil_iff]
        exact List.splitOn_ne_nil _ _
      have hmem {c : Byte} (hline : c ∉ toCString (stripEol line)) (hnew : c ∉ newValue) :
          ∀ field ∈ (colonFields colon (stripEol line)).set targetField newValue, c ∉ field := by
        intro field hfield
        rcases List.mem_or_eq_of_mem_set hfield with hfield | rfl
        · exact fun hc => hline (mem_of_mem_splitOn hfield hc)
        · exact hnew
      have hcolon : ∀ field ∈ (colonFields colon (stripEol line)).set targetField newValue,
          colon ∉ field := by
        intro field hfield
        rcases List.mem_or_eq_of_mem_set hfield with hfield | rfl
        · exact not_mem_of_mem_splitOn hfield
        · exact hvalue.1
      have hrow : row ([colon].intercalate ((colonFields colon (stripEol line)).set targetField
          newValue) ++ [LF]) = (row line).set targetField newValue := by
        rw [row_joined hfields hcolon (hmem (not_mem_toCString _) hvalue.2.2.2),
          stripLast_set hvalue.stripEol, ← row_eq_stripLast, row_stripEol]
      refine ⟨?_, [], row line, rest.map row, rfl, ?_, hkey, ?_⟩
      · rw [List.forall_mem_cons]
        refine ⟨⟨_, not_mem_joined (by decide)
          (hmem (mt mem_of_mem_toCString hls.1) hvalue.2.1), rfl⟩, ?_⟩
        intro l hl
        obtain ⟨line', hline', rfl⟩ := List.mem_map.mp hl
        exact isLine_printLine (hls.2 line' hline')
      · intro r' hr'
        exact absurd hr' List.not_mem_nil
      · rw [List.map_cons, hrow, map_row_printLine, List.nil_append]
    · rw [if_neg hmatch] at hupdated ⊢
      obtain ⟨hlines, first, r, rest', hrows, hfirst, hkey, hcopy⟩ := ih hls.2 hupdated
      refine ⟨?_, row line :: first, r, rest', ?_, ?_, hkey, ?_⟩
      · rw [List.forall_mem_cons]
        exact ⟨isLine_printLine hls.1, hlines⟩
      · rw [List.map_cons, hrows, List.cons_append]
      · rw [List.forall_mem_cons]
        exact ⟨by rwa [← row_stripEol, ← hasField_iff], hfirst⟩
      · rw [List.map_cons, hcopy, row_printLine, List.cons_append]

/-- An edit does what it is for: the file that a row is added to ends with a newline, and the row in
which a field is changed has the field. -/
def FileEdit.Applies (content : List Byte) : FileEdit → Prop
  | append _ => Terminated LF content
  | drop _ => True
  | remove _ => True
  | setField key targetField _ =>
    ∀ r, (rows content).find? (fun r => HasKey key r) = some r → targetField < r.length

theorem find?_append_cons {key : CString} {first rest : List (List CString)} {r : List CString}
    (hfirst : ∀ r' ∈ first, ¬ HasKey key r') (hr : HasKey key r) :
    (first ++ r :: rest).find? (fun r => HasKey key r) = some r := by
  have hnone : first.find? (fun r => HasKey key r) = none := by
    rw [List.find?_eq_none]
    intro r' hr'
    rw [decide_eq_true_iff]
    exact hfirst r' hr'
  rw [List.find?_append, hnone, Option.none_or]
  exact List.find?_cons_of_pos (decide_eq_true hr)

theorem setField_made_iff {key newValue : CString} (hvalue : Plain newValue) {targetField : ℕ}
    {content copy : List Byte}
    (hcopy : setColonFileField content colon key targetField newValue = some copy) :
    (FileEdit.setField key targetField newValue).Made (rows content) (rows copy) ↔
      (FileEdit.setField key targetField newValue).Applies content := by
  rw [setColonFileField] at hcopy
  obtain ⟨hupdated, hcopy⟩ := Option.ite_none_right_eq_some.mp hcopy
  obtain rfl := Option.some.inj hcopy
  obtain ⟨hlines, first, r, rest, hrows, hfirst, hkey, hset⟩ :=
    setColonLines_spec hvalue targetField (not_mem_stripEol_lines content) hupdated
  rw [rows_flatten hlines, hset, FileEdit.Applies, rows, hrows]
  constructor
  · rintro ⟨first', r', rest', hrows', hfirst', hkey', hlt, -⟩ r'' hr''
    rw [hrows', find?_append_cons hfirst' hkey'] at hr''
    obtain rfl := Option.some.inj hr''
    exact hlt
  · intro happlies
    exact ⟨first, r, rest, rfl, hfirst, hkey, happlies r (find?_append_cons hfirst hkey), rfl⟩

namespace AccountEdit

/-- **When an edit does what it is for.** -/
theorem made_iff {env : FileEnv} {this : AccountEdit} (hplain : this.edit.Plain) {files : Files}
    (haccepted : this.refusal env files = none) :
    this.edit.Made (rows ((files this.filename).getD []))
        (rows ((this.effect files this.filename).getD [])) ↔
      this.edit.Applies ((files this.filename).getD []) := by
  have heffect : (this.effect files this.filename).getD [] =
      this.edit.effect ((files this.filename).getD []) := by
    rw [effect, Files.write, if_pos rfl, Option.getD_some]
  rw [heffect]
  cases hedit : this.edit with
  | append fields =>
    rw [hedit] at hplain
    exact append_made_iff hplain _
  | drop key => exact iff_of_true (rows_removeMatchingLines _ key) trivial
  | remove key => exact iff_of_true (rows_removeMatchingLines _ key) trivial
  | setField key targetField newValue =>
    rw [hedit] at hplain
    simp only [refusal, hedit] at haccepted
    split_ifs at haccepted with hfile hcopy
    rw [Option.isNone_iff_eq_none] at hcopy
    obtain ⟨copy, hcopy⟩ := Option.ne_none_iff_exists'.mp hcopy
    rw [FileEdit.effect, hcopy, Option.getD_some]
    exact setField_made_iff hplain hcopy

end AccountEdit

end ChilopodCaster
