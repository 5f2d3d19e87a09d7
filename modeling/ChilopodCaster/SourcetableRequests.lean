import ChilopodCaster.SettingsWhole
import ChilopodCaster.SourcetableEdits

/-!
# Requests that edit the sourcetable file

What a request wants to put into a source line is looked at first. It has no separator and no end of
a line in it, and a coordinate is a number. This keeps the line well formed, but it does not say
which line is edited: where a comment or another record has the mountpoint in its second field, it
can be this one.

## Main definitions

* `newSource` — the source line of `api_add_source_json`
* `removedSource` — the mountpoint of `api_remove_source_json`
* `sourceEdits` — the fields that `api_edit_source_json` sets
* `Settable` — a field that the API sets, and its value

## Main results

* `sourcetable_edited_iff` — when an edit touches only the entry it is about
-/

namespace ChilopodCaster

open Lines

/-! ### What a request gives -/

/-- A text that is given and not empty, or the one that stands in for it. -/
def givenOr (default : CString) (value : Option CString) : CString :=
  (value.filter (· ≠ [])).getD default

/-- The texts of a new source line, those that the request gives and those that stand in for what
is missing: identifier, format, details, carrier, navigation systems, network, country, latitude,
longitude, solution, generator and bitrate. -/
def sourceTextsOf (req : SettingsRequest) (mountpoint : CString) : List CString :=
  [givenOr mountpoint (req.get "identifier"), givenOr (cstr "RTCM3") (req.get "format"),
    (req.get "format_details").getD [], givenOr (cstr "0") (req.get "carrier"),
    givenOr (cstr "GPS") (req.get "nav_system"), givenOr (cstr "NONE") (req.get "network"),
    givenOr (cstr "NONE") (req.get "country"), givenOr (cstr "0.000") (req.get "lat"),
    givenOr (cstr "0.000") (req.get "lon"), givenOr (cstr "0") (req.get "solution"),
    givenOr (cstr "unknown") (req.get "generator"), givenOr (cstr "0") (req.get "bitrate")]

/-- The fields of the line that is printed. -/
def sourceLineFields (mountpoint : CString) (texts : List CString) : List CString :=
  cstr "STR" :: mountpoint :: texts.take 9 ++ cstr "0" :: (texts.drop 9).take 2 ++
    [cstr "none", cstr "N", cstr "N", field texts 11, []]

/-- The source line of these texts, or the message with which they are refused. -/
def sourceLineOf (strtod : CString → Option ℚ) (mountpoint : CString) (texts : List CString) :
    Except CString (List CString) :=
  if texts.all fieldIsSafe = false then .error (cstr "invalid characters in a sourcetable field")
  else if strtod (field texts 7) = none then .error (cstr "lat must be a number")
  else if strtod (field texts 8) = none then .error (cstr "lon must be a number")
  else .ok (sourceLineFields mountpoint texts)

/-- The source line of `api_add_source_json`, or the message with which it is refused.
`localMountpoint` is whether `stack_find_local_mountpoint` finds a line. -/
def newSource (strtod : CString → Option ℚ) (localMountpoint : CString → Bool)
    (req : SettingsRequest) : Except CString (List CString) :=
  match (req.get "mountpoint").filter (· ≠ []), (req.get "source_password").filter (· ≠ []) with
  | some mountpoint, some password =>
    if fieldIsSafe mountpoint ∧ fieldIsSafe password then
      if localMountpoint mountpoint then .error (cstr "mountpoint already exists")
      else sourceLineOf strtod mountpoint (sourceTextsOf req mountpoint)
    else .error (cstr "invalid characters in mountpoint or source_password")
  | _, _ => .error (cstr "mountpoint and source_password are required")

/-- The line is appended to the file. -/
def appendSource (content : List Byte) (fields : List CString) : List Byte :=
  content ++ ([Sourceline.semicolon].intercalate fields ++ [LF])

/-- The mountpoint of `api_remove_source_json` and of `api_edit_source_json`, or the message with
which they are refused. -/
def removedSource (req : SettingsRequest) : Except CString CString :=
  match (req.get "mountpoint").filter (· ≠ []) with
  | some mountpoint =>
    if fieldIsSafe mountpoint then .ok mountpoint
    else .error (cstr "invalid characters in mountpoint")
  | none => .error (cstr "mountpoint is required")

/-- One field that `api_edit_source_json` sets. -/
def sourceEdit (req : SettingsRequest) (key : String) (default : CString) (message : String)
    (targetField : ℕ) : Option (Except CString (ℕ × CString)) :=
  (req.get key).map fun _ =>
    if fieldIsSafe (givenOr default (req.get key)) then
      .ok (targetField, givenOr default (req.get key))
    else .error (cstr message)

/-- The fields that `api_edit_source_json` sets, one after the other. -/
def sourceEdits (req : SettingsRequest) (mountpoint : CString) :
    List (Except CString (ℕ × CString)) :=
  (sourceEdit req "group" (cstr "NONE") "invalid characters in group" 7).toList ++
    (sourceEdit req "identifier" mountpoint "invalid characters in identifier" 2).toList

/-- A field that the API sets, and a value that it accepts for it: also what
`api_detect_source_json` finds out. -/
structure Settable (strtod : CString → Option ℚ) (targetField : ℕ) (newValue : CString) : Prop where
  target : targetField ∈ [2, 4, 6, 7, 9, 10]
  nul : 0 ∉ newValue
  safe : fieldIsSafe newValue = true
  number : targetField = 9 ∨ targetField = 10 → (strtod newValue).isSome = true

/-! ### What is accepted -/

theorem not_mem_of_fieldIsSafe {v : CString} (h : fieldIsSafe v = true) :
    Sourceline.semicolon ∉ v := by
  rw [fieldIsSafe, List.all_eq_true] at h
  exact fun hmem => (of_decide_eq_true (h _ hmem)).1 rfl

section

variable {strtod : CString → Option ℚ} {req : SettingsRequest}

theorem not_mem_givenOr {default : CString} (hdefault : 0 ∉ default) (key : String) :
    0 ∉ givenOr default (req.get key) := by
  rw [givenOr]
  cases hget : (req.get key).filter (· ≠ []) with
  | none => exact hdefault
  | some v => exact req.nul _ _ (Option.filter_eq_some_iff.mp hget).1

theorem not_mem_sourceTextsOf {mountpoint : CString} (hnul : 0 ∉ mountpoint) :
    ∀ text ∈ sourceTextsOf req mountpoint, 0 ∉ text := by
  have hdetails : 0 ∉ (req.get "format_details").getD [] := by
    cases hget : req.get "format_details" with
    | none => exact List.not_mem_nil
    | some v => exact req.nul _ _ hget
  simp only [sourceTextsOf, List.forall_mem_cons, List.not_mem_nil, false_imp_iff, implies_true,
    and_true]
  exact ⟨not_mem_givenOr hnul _, not_mem_givenOr (by decide) _, hdetails,
    not_mem_givenOr (by decide) _, not_mem_givenOr (by decide) _, not_mem_givenOr (by decide) _,
    not_mem_givenOr (by decide) _, not_mem_givenOr (by decide) _, not_mem_givenOr (by decide) _,
    not_mem_givenOr (by decide) _, not_mem_givenOr (by decide) _, not_mem_givenOr (by decide) _⟩

/-- A source line that is accepted is well formed. -/
structure SourceLine (strtod : CString → Option ℚ) (fields : List CString) : Prop where
  length : fields.length = 19
  plain : ∀ f ∈ fields, Plain f ∧ Sourceline.semicolon ∉ f
  mark : field fields 0 = cstr "STR"
  lat : (strtod (field fields 9)).isSome = true
  lon : (strtod (field fields 10)).isSome = true

theorem sourceLineOf_eq_ok {mountpoint : CString} {texts fields : List CString}
    (h : sourceLineOf strtod mountpoint texts = .ok fields) :
    (∀ text ∈ texts, fieldIsSafe text = true) ∧ (strtod (field texts 7)).isSome = true ∧
      (strtod (field texts 8)).isSome = true ∧ fields = sourceLineFields mountpoint texts := by
  rw [sourceLineOf] at h
  split at h
  · contradiction
  · next hsafe =>
    split at h
    · contradiction
    · next hlat =>
      split at h
      · contradiction
      · next hlon =>
        rw [Bool.not_eq_false, List.all_eq_true] at hsafe
        exact ⟨hsafe, Option.isSome_iff_ne_none.mpr hlat, Option.isSome_iff_ne_none.mpr hlon,
          (Except.ok.inj h).symm⟩

theorem mem_sourceLineFields {mountpoint f : CString} {texts : List CString}
    (hlength : texts.length = 12) (hf : f ∈ sourceLineFields mountpoint texts) :
    f = mountpoint ∨ f ∈ texts ∨ f ∈ [cstr "STR", cstr "0", cstr "none", cstr "N", []] := by
  have hlast : field texts 11 ∈ texts := by
    have hlt : 11 < texts.length := by omega
    rw [field, List.getD_eq_getElem?_getD, List.getElem?_eq_getElem hlt, Option.getD_some]
    exact List.getElem_mem hlt
  rw [sourceLineFields] at hf
  rcases List.mem_append.mp hf with hf | hf
  · rcases List.mem_append.mp hf with hf | hf
    · rcases List.mem_cons.mp hf with rfl | hf
      · exact Or.inr (Or.inr (by decide))
      · rcases List.mem_cons.mp hf with rfl | hf
        · exact Or.inl rfl
        · exact Or.inr (Or.inl (List.mem_of_mem_take hf))
    · rcases List.mem_cons.mp hf with rfl | hf
      · exact Or.inr (Or.inr (by decide))
      · exact Or.inr (Or.inl (List.mem_of_mem_drop (List.mem_of_mem_take hf)))
  · simp only [List.mem_cons, List.not_mem_nil, or_false] at hf
    rcases hf with rfl | rfl | rfl | rfl | rfl
    · exact Or.inr (Or.inr (by decide))
    · exact Or.inr (Or.inr (by decide))
    · exact Or.inr (Or.inr (by decide))
    · exact Or.inr (Or.inl hlast)
    · exact Or.inr (Or.inr (by decide))

theorem field_sourceLineFields {mountpoint : CString} {texts : List CString}
    (hlength : texts.length = 12) {i : ℕ} (hi : i < 9) :
    field (sourceLineFields mountpoint texts) (i + 2) = field texts i := by
  have htake : i < (texts.take 9).length := by
    rw [List.length_take, hlength]
    omega
  rw [sourceLineFields, field, field, List.append_assoc, List.cons_append, List.cons_append,
    List.getD_cons_succ, List.getD_cons_succ, List.getD_eq_getElem?_getD,
    List.getElem?_append_left htake, List.getElem?_take_of_lt hi, ← List.getD_eq_getElem?_getD,
    field]

theorem length_sourceLineFields {mountpoint : CString} {texts : List CString}
    (hlength : texts.length = 12) : (sourceLineFields mountpoint texts).length = 19 := by
  simp [sourceLineFields, hlength]

theorem sourceLine_of_newSource {localMountpoint : CString → Bool} {fields : List CString}
    (h : newSource strtod localMountpoint req = .ok fields) : SourceLine strtod fields := by
  unfold newSource at h
  split at h
  · next mountpoint password hmountpoint hpassword =>
    split at h
    · next hmountpointSafe =>
      split at h
      · contradiction
      · obtain ⟨hsafe, hlat, hlon, rfl⟩ := sourceLineOf_eq_ok h
        have hnul : 0 ∉ mountpoint := req.nul _ _ (Option.filter_eq_some_iff.mp hmountpoint).1
        have hplain {v : CString} (hnul : 0 ∉ v) (hsafe : fieldIsSafe v = true) :
            Plain v ∧ Sourceline.semicolon ∉ v :=
          ⟨plain_of_fieldIsSafe hnul hsafe, not_mem_of_fieldIsSafe hsafe⟩
        have hfixed : ∀ f ∈ [cstr "STR", cstr "0", cstr "none", cstr "N", []],
            0 ∉ f ∧ fieldIsSafe f = true := by decide
        have hlength : (sourceTextsOf req mountpoint).length = 12 := rfl
        refine ⟨length_sourceLineFields hlength, fun f hf => ?_, rfl, ?_, ?_⟩
        · rcases mem_sourceLineFields hlength hf with rfl | hf | hf
          · exact hplain hnul hmountpointSafe.1
          · exact hplain (not_mem_sourceTextsOf hnul f hf) (hsafe f hf)
          · exact hplain (hfixed f hf).1 (hfixed f hf).2
        · rwa [field_sourceLineFields hlength (by decide)]
        · rwa [field_sourceLineFields hlength (by decide)]
    · contradiction
  · contradiction

/-- What `api_edit_source_json` sets is accepted. -/
theorem settable_of_mem_sourceEdits {mountpoint : CString} (hmountpoint : 0 ∉ mountpoint)
    {targetField : ℕ} {newValue : CString}
    (h : .ok (targetField, newValue) ∈ sourceEdits req mountpoint) :
    Settable strtod targetField newValue := by
  have hof {key : String} {default : CString} {message : String} {i : ℕ} (hdefault : 0 ∉ default)
      (hi : i = 7 ∨ i = 2) (h : .ok (targetField, newValue) ∈
        (sourceEdit req key default message i).toList) : Settable strtod targetField newValue := by
    obtain ⟨-, -, h⟩ := Option.map_eq_some_iff.mp (Option.mem_toList.mp h)
    split at h
    · next hsafe =>
      obtain ⟨rfl, rfl⟩ := Prod.mk.inj (Except.ok.inj h)
      refine ⟨?_, not_mem_givenOr hdefault key, hsafe, fun hcoordinate => ?_⟩
      · rcases hi with rfl | rfl
        · decide
        · decide
      · omega
    · contradiction
  rcases List.mem_append.mp h with h | h
  · exact hof (by decide) (Or.inl rfl) h
  · exact hof hmountpoint (Or.inr rfl) h

end

/-! ### The edits of the requests -/

/-- **When an edit touches only the entry it is about.** A field is set, a mountpoint is removed,
and one is added. -/
theorem sourcetable_edited_iff {F : Type} (scanFloat : CString → Option F)
    (strtod : CString → Option ℚ) (localMountpoint : CString → Bool)
    (hscan : ∀ v, (strtod v).isSome = true → (scanFloat v).isSome = true)
    (filename : CString) (content : List Byte) (priority : ℤ) (table : Sourcetable F)
    (hread : Sourcetable.read scanFloat filename content priority = some table) :
    (∀ req mountpoint, removedSource req = .ok mountpoint → ∀ targetField newValue,
      Settable strtod targetField newValue →
        (SourcetableEdited scanFloat content
            (updateSourcetableField content mountpoint targetField newValue).1
            (setEntries mountpoint targetField newValue) ↔
          UpdateSafe content mountpoint targetField newValue)) ∧
    (∀ req mountpoint, removedSource req = .ok mountpoint →
        (SourcetableEdited scanFloat content
            (removeMatchingLines content Sourceline.semicolon 1 mountpoint).1
            (fun entries => entries.filter fun t => entryKey t ≠ mountpoint) ↔
          ∀ t ∈ otherLines content, ¬ HasName mountpoint t)) ∧
    ∀ req fields, newSource strtod localMountpoint req = .ok fields →
      (SourcetableEdited scanFloat content (appendSource content fields)
          (fun entries => entries ++ [[Sourceline.semicolon].intercalate fields]) ↔
        Terminated LF content ∧ ∀ t ∈ strEntries content, entryKey t ≠ field fields 1) := by
  obtain ⟨hparses, hnodup⟩ := (read_isSome_iff filename content priority).mp ⟨table, hread⟩
  refine ⟨fun req mountpoint _ targetField newValue hset => ?_, fun req mountpoint _ => ?_,
    fun req fields h => ?_⟩
  · have hbounds : 1 < targetField ∧ targetField < 18 := by
      have htargets : ∀ i ∈ [2, 4, 6, 7, 9, 10], 1 < i ∧ i < 18 := by decide
      exact htargets targetField hset.target
    exact updated_iff (plain_of_fieldIsSafe hset.nul hset.safe) (not_mem_of_fieldIsSafe hset.safe)
      hbounds (fun hcoordinate => hscan _ (hset.number hcoordinate)) hparses hnodup
  · exact removed_iff hparses hnodup
  · have hline := sourceLine_of_newSource h
    exact added_iff hline.length hline.plain hline.mark (hscan _ hline.lat) (hscan _ hline.lon)
      hparses hnodup

/-- The number that the coordinates below are. -/
def scanZero (v : CString) : Option ℚ := if v = cstr "0.000" then some 0 else none

/-- A request about a mountpoint. -/
def sourceRequest (mountpoint : CString) (h : 0 ∉ mountpoint) : SettingsRequest :=
  .ofList [(cstr "mountpoint", mountpoint), (cstr "source_password", cstr "pw"),
    (cstr "group", cstr "EU")] (by
      simp only [List.forall_mem_cons, List.not_mem_nil, false_imp_iff, implies_true, and_true]
      exact ⟨h, by decide, by decide⟩)

/-- The source line of a mountpoint, with the group. -/
def sourceText (mountpoint group : String) : CString :=
  cstr "STR;" ++ cstr mountpoint ++ cstr ";" ++ cstr mountpoint ++ cstr ";RTCM3;;0;GPS;" ++
    cstr group ++ cstr ";NONE;0.000;0.000;0;0;unknown;none;N;N;0;"

/-- A file with another record and a mountpoint. -/
def sourceContent (other : String) : List Byte :=
  cstr other ++ [LF] ++ (sourceText "M" "NONE" ++ [LF])

theorem sourcetable_edited_survey :
    SourcetableEdited scanZero (sourceContent "NET;EU;x")
      (updateSourcetableField (sourceContent "NET;EU;x") (cstr "M") 7 (cstr "EU")).1
      (setEntries (cstr "M") 7 (cstr "EU")) ∧
    SourcetableEdited scanZero (sourceContent "NET;EU;x")
      (removeMatchingLines (sourceContent "NET;EU;x") Sourceline.semicolon 1 (cstr "M")).1
      (fun entries => entries.filter fun t => entryKey t ≠ cstr "M") ∧
    SourcetableEdited scanZero (sourceContent "NET;EU;x")
      (appendSource (sourceContent "NET;EU;x") ((sourceText "N" "NONE").splitOn 0x3b))
      (fun entries => entries ++ [[Sourceline.semicolon].intercalate
        ((sourceText "N" "NONE").splitOn 0x3b)]) := by
  have hread : (Sourcetable.read scanZero (cstr "sourcetable.dat") (sourceContent "NET;EU;x")
      20).isSome = true := by decide +kernel
  obtain ⟨table, hread⟩ := Option.isSome_iff_exists.mp hread
  obtain ⟨hupdated, hremoved, hadded⟩ := sourcetable_edited_iff scanZero scanZero (fun _ => false)
    (fun _ h => h) (cstr "sourcetable.dat") (sourceContent "NET;EU;x") 20 table hread
  refine ⟨?_, ?_, ?_⟩
  · refine (hupdated (sourceRequest (cstr "M") (by decide)) (cstr "M") (by decide) 7 (cstr "EU")
      ⟨by decide, by decide, by decide, by decide⟩).mpr ⟨by decide +kernel, fun t ht hentry => ?_⟩
    have hfirst : (texts (sourceContent "NET;EU;x")).find? (fun t => HasName (cstr "M") t) =
        some (sourceText "M" "NONE") := by decide +kernel
    rw [hfirst] at ht
    refine absurd ?_ hentry
    rw [← Option.some.inj ht]
    decide +kernel
  · exact (hremoved (sourceRequest (cstr "M") (by decide)) (cstr "M") (by decide)).mpr
      (by decide +kernel)
  · exact (hadded (sourceRequest (cstr "N") (by decide)) _ (by decide +kernel)).mpr
      ⟨by decide +kernel, by decide +kernel⟩

/-- **Another line is edited.** The comment has the mountpoint in its second field. A line that is
added to a file without a newline at its end makes it unreadable. -/
theorem not_sourcetable_edited_comment :
    (∃ req mountpoint targetField newValue content,
      removedSource req = .ok mountpoint ∧ Settable scanZero targetField newValue ∧
      (Sourcetable.read scanZero (cstr "sourcetable.dat") content 20).isSome = true ∧
      ¬ SourcetableEdited scanZero content
        (updateSourcetableField content mountpoint targetField newValue).1
        (setEntries mountpoint targetField newValue)) ∧
    (∃ req mountpoint content, removedSource req = .ok mountpoint ∧
      (Sourcetable.read scanZero (cstr "sourcetable.dat") content 20).isSome = true ∧
      ¬ SourcetableEdited scanZero content
        (removeMatchingLines content Sourceline.semicolon 1 mountpoint).1
        (fun entries => entries.filter fun t => entryKey t ≠ mountpoint)) ∧
    ∃ req fields content, newSource scanZero (fun _ => false) req = .ok fields ∧
      (Sourcetable.read scanZero (cstr "sourcetable.dat") content 20).isSome = true ∧
      Sourcetable.read scanZero (cstr "sourcetable.dat") (appendSource content fields) 20 =
        none := by
  refine ⟨⟨sourceRequest (cstr "M") (by decide), cstr "M", 7, cstr "EU",
    sourceContent "#STR;M;old;x;x;x;x;x", by decide +kernel,
    ⟨by decide, by decide, by decide, by decide⟩,
    by decide +kernel, fun h => ?_⟩,
    ⟨sourceRequest (cstr "M") (by decide), cstr "M", sourceContent "#STR;M;old;x;x;x;x;x",
      by decide +kernel, by decide +kernel, fun h => ?_⟩,
    sourceRequest (cstr "N") (by decide), (sourceText "N" "NONE").splitOn 0x3b,
    sourceText "M" "NONE", by decide +kernel, by decide +kernel, ?_⟩
  · have hentries := h.entries
    revert hentries
    decide +kernel
  · have hothers := h.others
    revert hothers
    decide +kernel
  · rw [← Option.isNone_iff_eq_none]
    decide +kernel

end ChilopodCaster
