import ChilopodCaster.AccountFiles
import ChilopodCaster.Scanf
import Mathlib.Data.List.GetD

/-!
# Positions of the rovers

A rover that wants a virtual base sends its position in a NMEA sentence of type GGA: fields with
commas between them, among which the latitude and the longitude in degrees and minutes, and the
quality of the fix. The ranges of the numbers are checked by rejections, which NaN passes.

## Main definitions

* `Gga`, `parseGga` — `gga_t` and `parse_gga`
* `RealCoordinates` — what is expected of a sentence that is accepted

## Main results

* `parseGga_of_passes`, `parseGga_of_not_passes` — which sentences are accepted
* `realCoordinates_iff` — when the position accepted is one
-/

namespace ChilopodCaster

/-! ### The function -/

/-- `gga_t`. -/
structure Gga where
  pos : Pos (Extended ℚ)
  time : CString
  quality : BitVec 32
  nsats : BitVec 32
  hdop : Extended ℚ
  alt : Extended ℚ
  geoidSep : Extended ℚ
  diffAge : Extended ℚ
  diffStation : BitVec 32
  deriving DecidableEq, Repr

/-- What `parse_gga` starts from. -/
def Gga.init : Gga where
  pos := ⟨.fin 0, .fin 0⟩
  time := []
  quality := 0
  nsats := -1
  hdop := .fin (-1)
  alt := .fin 0
  geoidSep := .fin 0
  diffAge := .fin (-1)
  diffStation := -1

/-- The degrees and minutes of a field, as degrees. `none` if they are not read, or are found out of
range. -/
def ggaDegrees (width : ℕ) (maxDegrees : ℚ) (token : CString) : Option (Extended ℚ) :=
  match sscanfFF width token with
  | none => none
  | some (s1, s2) =>
    if s1.lt (.fin 0) || s2.lt (.fin 0) || (Extended.fin maxDegrees).lt s1 ||
        (Extended.fin 60).le s2 || (Extended.fin maxDegrees).lt (s1.add (s2.divPos 60)) then none
    else some (s1.add (s2.divPos 60))

/-- The latitude, `%2f%f`. -/
def ggaLatitude : CString → Option (Extended ℚ) := ggaDegrees 2 90

/-- The longitude, `%3f%f`. -/
def ggaLongitude : CString → Option (Extended ℚ) := ggaDegrees 3 180

/-- The body of the loop of `parse_gga`, on `g` and `err`. -/
def ggaToken (s : Gga × Bool) (n : ℕ) (token : CString) : Gga × Bool :=
  let g := s.1
  match n with
  | 1 => ({ g with time := token.take 15 }, s.2)
  | 2 =>
    match ggaLatitude token with
    | none => (g, true)
    | some lat => ({ g with pos := { g.pos with lat := lat } }, s.2)
  | 3 =>
    if token = cstr "S" then ({ g with pos := { g.pos with lat := g.pos.lat.neg } }, s.2)
    else if token ≠ cstr "N" then (g, true)
    else s
  | 4 =>
    match ggaLongitude token with
    | none => (g, true)
    | some lon => ({ g with pos := { g.pos with lon := lon } }, s.2)
  | 5 =>
    if token = cstr "W" then ({ g with pos := { g.pos with lon := g.pos.lon.neg } }, s.2)
    else if token ≠ cstr "E" then (g, true)
    else s
  | 6 =>
    match sscanfD token with
    | none => (g, true)
    | some quality => ({ g with quality := quality }, s.2 || decide (quality = 0))
  | 7 => ({ g with nsats := (sscanfD token).getD g.nsats }, s.2)
  | 8 => ({ g with hdop := (sscanfF token).getD g.hdop }, s.2)
  | 9 => ({ g with alt := (sscanfF token).getD g.alt }, s.2)
  | 11 => ({ g with geoidSep := (sscanfF token).getD g.geoidSep }, s.2)
  | 13 => ({ g with diffAge := (sscanfF token).getD g.diffAge }, s.2)
  | 14 =>
    let token := token.takeWhile (· ≠ 0x2a)
    ({ g with diffStation := (sscanfD token).getD g.diffStation }, s.2)
  | _ => s

/-- The loop of `parse_gga`. -/
def ggaTokens (s : Gga × Bool) (tokens : List CString) : Gga × Bool :=
  tokens.zipIdx.foldl (fun s p => ggaToken s p.2 p.1) s

/-- The line from the first `$` on. -/
def ggaSentence (line : CString) : CString := line.dropWhile (· ≠ 0x24)

/-- The sentence has what `parse_gga` looks at before the fields. -/
def ggaHeader (line : CString) : Bool :=
  20 ≤ line.length && (line)[1]? = some 0x47 && (line)[3]? = some 0x47 && (line)[4]? = some 0x47 &&
    (line)[5]? = some 0x41

/-- The fields of a sentence. -/
def ggaFields (line : CString) : List CString := (ggaSentence line).splitOn 0x2c

/-- `parse_gga`, with what it leaves in `*gga`. A line without a `$` has not the 20 characters that
are needed from there on. -/
def parseGga (line : CString) (gga : Gga) : Gga × ℤ :=
  if !ggaHeader (ggaSentence line) then (gga, -1)
  else
    let s := ggaTokens (Gga.init, false) (ggaFields line)
    if s.2 || (ggaFields line).length ≠ 15 then (gga, -1) else (s.1, 1)

/-! ### The fields -/

section Token

variable (s : Gga × Bool) (n : ℕ) (token : CString)

/-- What is found wrong with a field. -/
def tokenErr (n : ℕ) (token : CString) : Bool :=
  match n with
  | 2 => (ggaLatitude token).isNone
  | 3 => token ≠ cstr "S" && token ≠ cstr "N"
  | 4 => (ggaLongitude token).isNone
  | 5 => token ≠ cstr "W" && token ≠ cstr "E"
  | 6 => (sscanfD token).all (· = 0)
  | _ => false

theorem err_ggaToken : (ggaToken s n token).2 = (s.2 || tokenErr n token) := by
  rcases n with _ | _ | _ | _ | _ | _ | _ | _ | _ | _ | _ | _ | _ | _ | _ | n <;>
    try exact (Bool.or_false s.2).symm
  · simp only [ggaToken, tokenErr]
    cases ggaLatitude token <;> simp
  · simp only [ggaToken, tokenErr]
    split_ifs <;> simp_all
  · simp only [ggaToken, tokenErr]
    cases ggaLongitude token <;> simp
  · simp only [ggaToken, tokenErr]
    split_ifs <;> simp_all
  · simp only [ggaToken, tokenErr]
    cases sscanfD token <;> simp

theorem lat_ggaToken : (ggaToken s n token).1.pos.lat =
    if n = 2 then (ggaLatitude token).getD s.1.pos.lat
    else if n = 3 ∧ token = cstr "S" then s.1.pos.lat.neg
    else s.1.pos.lat := by
  rcases n with _ | _ | _ | _ | _ | _ | _ | _ | _ | _ | _ | _ | _ | _ | _ | n <;> try rfl
  · simp only [ggaToken]
    cases ggaLatitude token <;> rfl
  · simp only [ggaToken]
    split_ifs <;> simp_all
  · simp only [ggaToken]
    cases ggaLongitude token <;> rfl
  · simp only [ggaToken]
    split_ifs <;> simp_all
  · simp only [ggaToken]
    cases sscanfD token <;> rfl

theorem lon_ggaToken : (ggaToken s n token).1.pos.lon =
    if n = 4 then (ggaLongitude token).getD s.1.pos.lon
    else if n = 5 ∧ token = cstr "W" then s.1.pos.lon.neg
    else s.1.pos.lon := by
  rcases n with _ | _ | _ | _ | _ | _ | _ | _ | _ | _ | _ | _ | _ | _ | _ | n <;> try rfl
  · simp only [ggaToken]
    cases ggaLatitude token <;> rfl
  · simp only [ggaToken]
    split_ifs <;> simp_all
  · simp only [ggaToken]
    cases ggaLongitude token <;> rfl
  · simp only [ggaToken]
    split_ifs <;> simp_all
  · simp only [ggaToken]
    cases sscanfD token <;> rfl

theorem quality_ggaToken : (ggaToken s n token).1.quality =
    if n = 6 then (sscanfD token).getD s.1.quality else s.1.quality := by
  rcases n with _ | _ | _ | _ | _ | _ | _ | _ | _ | _ | _ | _ | _ | _ | _ | n <;> try rfl
  · simp only [ggaToken]
    cases ggaLatitude token <;> rfl
  · simp only [ggaToken]
    split_ifs <;> simp_all
  · simp only [ggaToken]
    cases ggaLongitude token <;> rfl
  · simp only [ggaToken]
    split_ifs <;> simp_all
  · simp only [ggaToken]
    cases sscanfD token <;> rfl

end Token

/-! ### Fifteen fields -/

theorem eq_map_field {tokens : List CString} (h : tokens.length = 15) :
    tokens = (List.range 15).map (field tokens) := by
  refine List.ext_getElem (by rw [List.length_map, List.length_range, h]) fun i hi hi' => ?_
  rw [List.getElem_map, List.getElem_range, field, List.getD_eq_getElem _ _ hi]

/-- The fields one after the other. -/
theorem ggaTokens_eq {tokens : List CString} (h : tokens.length = 15) (s : Gga × Bool) :
    ggaTokens s tokens =
      (List.range 15).foldl (fun s n => ggaToken s n (field tokens n)) s := by
  conv_lhs => rw [eq_map_field h]
  rfl

/-- **What is found wrong** with the fields. -/
theorem err_ggaTokens {tokens : List CString} (h : tokens.length = 15) (s : Gga × Bool) :
    (ggaTokens s tokens).2 = (s.2 || (tokenErr 2 (field tokens 2) || (tokenErr 3 (field tokens 3) ||
      (tokenErr 4 (field tokens 4) || (tokenErr 5 (field tokens 5) ||
        tokenErr 6 (field tokens 6)))))) := by
  have hfold (l : List ℕ) (s : Gga × Bool) :
      (l.foldl (fun s n => ggaToken s n (field tokens n)) s).2 =
        (s.2 || l.any fun n => tokenErr n (field tokens n)) := by
    induction l generalizing s with
    | nil => exact (Bool.or_false s.2).symm
    | cons n l ih => rw [List.foldl_cons, ih, err_ggaToken, List.any_cons, Bool.or_assoc]
  have hrange : ((List.range 15).any fun n => tokenErr n (field tokens n)) =
      (tokenErr 2 (field tokens 2) || (tokenErr 3 (field tokens 3) ||
        (tokenErr 4 (field tokens 4) || (tokenErr 5 (field tokens 5) ||
          (tokenErr 6 (field tokens 6) || false))))) := rfl
  rw [ggaTokens_eq h, hfold, hrange, Bool.or_false]

/-- The position and the quality that are read of the fields. -/
theorem fst_ggaTokens {tokens : List CString} (h : tokens.length = 15) :
    (ggaTokens (Gga.init, false) tokens).1.pos.lat =
        (if field tokens 3 = cstr "S" then ((ggaLatitude (field tokens 2)).getD (.fin 0)).neg
          else (ggaLatitude (field tokens 2)).getD (.fin 0)) ∧
      (ggaTokens (Gga.init, false) tokens).1.pos.lon =
        (if field tokens 5 = cstr "W" then ((ggaLongitude (field tokens 4)).getD (.fin 0)).neg
          else (ggaLongitude (field tokens 4)).getD (.fin 0)) ∧
      (ggaTokens (Gga.init, false) tokens).1.quality = (sscanfD (field tokens 6)).getD 0 := by
  have hrange : List.range 15 = [0, 1, 2, 3, 4, 5, 6, 7, 8, 9, 10, 11, 12, 13, 14] := rfl
  rw [ggaTokens_eq h, hrange]
  simp [lat_ggaToken, lon_ggaToken, quality_ggaToken, Gga.init]

/-! ### Sentences that are accepted -/

/-- The checks of `parse_gga` pass. -/
structure GgaPasses (line : CString) : Prop where
  header : ggaHeader (ggaSentence line) = true
  fields : (ggaFields line).length = 15
  latitude : (ggaLatitude (field (ggaFields line) 2)).isSome
  north : field (ggaFields line) 3 = cstr "S" ∨ field (ggaFields line) 3 = cstr "N"
  longitude : (ggaLongitude (field (ggaFields line) 4)).isSome
  east : field (ggaFields line) 5 = cstr "W" ∨ field (ggaFields line) 5 = cstr "E"
  quality : ∃ q, sscanfD (field (ggaFields line) 6) = some q ∧ q ≠ 0

/-- The fields are found wrong if one of the checks on them fails. -/
theorem not_err_iff {tokens : List CString} (h : tokens.length = 15) :
    (ggaTokens (Gga.init, false) tokens).2 = false ↔
      (ggaLatitude (field tokens 2)).isSome ∧
        (field tokens 3 = cstr "S" ∨ field tokens 3 = cstr "N") ∧
        (ggaLongitude (field tokens 4)).isSome ∧
        (field tokens 5 = cstr "W" ∨ field tokens 5 = cstr "E") ∧
        ∃ q, sscanfD (field tokens 6) = some q ∧ q ≠ 0 := by
  rw [err_ggaTokens h]
  simp only [tokenErr, Bool.false_or, Bool.or_eq_false_iff, Option.isNone_eq_false_iff,
    Bool.and_eq_false_iff, decide_eq_false_iff_not, not_not]
  refine and_congr_right fun _ => and_congr_right fun _ => and_congr_right fun _ =>
    and_congr_right fun _ => ?_
  cases sscanfD (field tokens 6) with
  | none => simp
  | some q => simp

/-- **Acceptance.** -/
theorem parseGga_of_passes {line : CString} (h : GgaPasses line) (gga : Gga) :
    parseGga line gga = ((ggaTokens (Gga.init, false) (ggaFields line)).1, 1) := by
  have herr := (not_err_iff h.fields).mpr ⟨h.latitude, h.north, h.longitude, h.east, h.quality⟩
  have hfields : (decide ((ggaFields line).length ≠ 15)) = false :=
    decide_eq_false (not_not.mpr h.fields)
  rw [parseGga, h.header, Bool.not_true, if_neg Bool.false_ne_true]
  dsimp only
  rw [herr, hfields, Bool.or_false, if_neg Bool.false_ne_true]

/-- **Refusal.** -/
theorem parseGga_of_not_passes {line : CString} (h : ¬ GgaPasses line) (gga : Gga) :
    parseGga line gga = (gga, -1) := by
  rw [parseGga]
  by_cases hheader : ggaHeader (ggaSentence line) = true
  · rw [hheader, Bool.not_true, if_neg Bool.false_ne_true]
    refine if_pos ?_
    rw [Bool.or_eq_true, decide_eq_true_iff]
    by_contra hnot
    obtain ⟨herr, hfields⟩ := not_or.mp hnot
    have hfields := not_not.mp hfields
    obtain ⟨hlat, hnorth, hlon, heast, hquality⟩ :=
      (not_err_iff hfields).mp (Bool.eq_false_iff.mpr herr)
    exact h ⟨hheader, hfields, hlat, hnorth, hlon, heast, hquality⟩
  · rw [Bool.not_eq_true] at hheader
    rw [hheader]
    rfl

/-! ### Positions -/

/-- A coordinate is that of two numbers, of degrees and of minutes, with its sign. -/
def IsCoordinate (width : ℕ) (maxDegrees : ℚ) (token direction negative : CString)
    (x : Extended ℚ) : Prop :=
  ∃ degrees minutes q : ℚ, sscanfFF width token = some (.fin degrees, .fin minutes) ∧
    0 ≤ degrees ∧ 0 ≤ minutes ∧ minutes < 60 ∧
    q = (if direction = negative then -(degrees + minutes / 60) else degrees + minutes / 60) ∧
    -maxDegrees ≤ q ∧ q ≤ maxDegrees ∧ x = .fin q

/-- What a sentence that is accepted should be, and that nothing is stored for another. -/
structure RealCoordinates (line : CString) (gga : Gga) : Prop where
  fields : (parseGga line gga).2 = 1 → (ggaFields line).length = 15
  north : (parseGga line gga).2 = 1 →
    field (ggaFields line) 3 = cstr "S" ∨ field (ggaFields line) 3 = cstr "N"
  latitude : (parseGga line gga).2 = 1 → IsCoordinate 2 90 (field (ggaFields line) 2)
    (field (ggaFields line) 3) (cstr "S") (parseGga line gga).1.pos.lat
  east : (parseGga line gga).2 = 1 →
    field (ggaFields line) 5 = cstr "W" ∨ field (ggaFields line) 5 = cstr "E"
  longitude : (parseGga line gga).2 = 1 → IsCoordinate 3 180 (field (ggaFields line) 4)
    (field (ggaFields line) 5) (cstr "W") (parseGga line gga).1.pos.lon
  quality : (parseGga line gga).2 = 1 → (parseGga line gga).1.quality ≠ 0
  unchanged : (parseGga line gga).2 = -1 → (parseGga line gga).1 = gga

/-- None of the numbers read in a field is NaN. -/
def NoNaN (width : ℕ) (token : CString) : Prop :=
  ∀ s1 s2, sscanfFF width token = some (s1, s2) → s1 ≠ .nan ∧ s2 ≠ .nan

/-- **The checks of a coordinate.** They do what they should on all but NaN. -/
theorem of_ggaDegrees {width : ℕ} {maxDegrees : ℚ} {token : CString} {x : Extended ℚ}
    (hnan : NoNaN width token) (h : ggaDegrees width maxDegrees token = some x) :
    ∃ degrees minutes : ℚ, sscanfFF width token = some (.fin degrees, .fin minutes) ∧
      0 ≤ degrees ∧ 0 ≤ minutes ∧ minutes < 60 ∧ degrees + minutes / 60 ≤ maxDegrees ∧
      x = .fin (degrees + minutes / 60) := by
  rw [ggaDegrees] at h
  cases hread : sscanfFF width token with
  | none =>
    rw [hread] at h
    contradiction
  | some numbers =>
    obtain ⟨s1, s2⟩ := numbers
    obtain ⟨hnan1, hnan2⟩ := hnan s1 s2 hread
    rw [hread] at h
    dsimp only at h
    split at h
    · contradiction
    · next hchecks =>
      simp only [Bool.not_eq_true, Bool.or_eq_false_iff] at hchecks
      obtain ⟨⟨⟨⟨hlo1, hlo2⟩, hhi1⟩, hhi2⟩, hsum⟩ := hchecks
      obtain ⟨degrees, rfl, hdegrees, -⟩ := Extended.exists_fin_of_range hnan1 hlo1 hhi1
      obtain ⟨minutes, rfl, hminutes, hsixty⟩ := Extended.exists_fin_of_range_lt hnan2 hlo2 hhi2
      have hle : degrees + minutes / 60 ≤ maxDegrees :=
        not_lt.mp (decide_eq_false_iff_not.mp hsum)
      exact ⟨degrees, minutes, rfl, hdegrees, hminutes, hsixty, hle, (Option.some.inj h).symm⟩

/-- A field that is accepted without NaN, with its sign, is a coordinate. -/
theorem isCoordinate_of_ggaDegrees {width : ℕ} {maxDegrees : ℚ}
    {token direction negative : CString} (hnan : NoNaN width token)
    (h : (ggaDegrees width maxDegrees token).isSome) :
    IsCoordinate width maxDegrees token direction negative
      (if direction = negative then ((ggaDegrees width maxDegrees token).getD (.fin 0)).neg
        else (ggaDegrees width maxDegrees token).getD (.fin 0)) := by
  obtain ⟨x, hx⟩ := Option.isSome_iff_exists.mp h
  obtain ⟨degrees, minutes, hread, hdegrees, hminutes, hsixty, hmax, rfl⟩ :=
    of_ggaDegrees hnan hx
  have hnonneg : 0 ≤ degrees + minutes / 60 := by positivity
  rw [hx, Option.getD_some]
  refine ⟨degrees, minutes, _, hread, hdegrees, hminutes, hsixty, rfl, ?_⟩
  split
  · exact ⟨by linarith, by linarith, rfl⟩
  · exact ⟨by linarith, hmax, rfl⟩

theorem IsCoordinate.noNaN {width : ℕ} {maxDegrees : ℚ} {token direction negative : CString}
    {x : Extended ℚ} (h : IsCoordinate width maxDegrees token direction negative x) :
    NoNaN width token := by
  obtain ⟨degrees, minutes, -, hread, -⟩ := h
  intro s1 s2 hread'
  obtain ⟨rfl, rfl⟩ := Prod.mk.inj (Option.some.inj (hread.symm.trans hread'))
  constructor
  · intro hnan
    contradiction
  · intro hnan
    contradiction

/-- **When the position of a sentence is one.** No NaN may be read in it, unless the sentence is
refused. -/
theorem realCoordinates_iff (line : CString) (gga : Gga) :
    RealCoordinates line gga ↔ (GgaPasses line →
      NoNaN 2 (field (ggaFields line) 2) ∧ NoNaN 3 (field (ggaFields line) 4)) := by
  by_cases hpasses : GgaPasses line
  · have hparse := parseGga_of_passes hpasses gga
    have hone : (parseGga line gga).2 = 1 := by rw [hparse]
    rw [forall_prop_of_true hpasses]
    constructor
    · intro h
      exact ⟨(h.latitude hone).noNaN, (h.longitude hone).noNaN⟩
    · rintro ⟨hlat, hlon⟩
      obtain ⟨hlatVal, hlonVal, hqualityVal⟩ := fst_ggaTokens hpasses.fields
      have hneg : (parseGga line gga).2 ≠ -1 := by
        rw [hone]
        decide
      refine ⟨fun _ => hpasses.fields, fun _ => hpasses.north, fun _ => ?_,
        fun _ => hpasses.east, fun _ => ?_, fun _ => ?_, fun h => absurd h hneg⟩
      · rw [hparse, hlatVal]
        exact isCoordinate_of_ggaDegrees hlat hpasses.latitude
      · rw [hparse, hlonVal]
        exact isCoordinate_of_ggaDegrees hlon hpasses.longitude
      · obtain ⟨q, hq, hne⟩ := hpasses.quality
        rw [hparse, hqualityVal, hq]
        exact hne
  · have hparse := parseGga_of_not_passes hpasses gga
    have hrefused : (-1 : ℤ) ≠ 1 := by decide
    have hone : (parseGga line gga).2 ≠ 1 := by
      rw [hparse]
      exact hrefused
    refine iff_of_true ?_ fun h => absurd h hpasses
    refine ⟨fun h => absurd h hone, fun h => absurd h hone, fun h => absurd h hone,
      fun h => absurd h hone, fun h => absurd h hone, fun h => absurd h hone, fun _ => ?_⟩
    rw [hparse]

/-- The minutes of the latitude are `nan`. -/
theorem not_realCoordinates_nan :
    ¬ RealCoordinates (cstr "$GPGGA,1,48nan,N,00200.0,E,1,,,,,,,,") Gga.init := by
  intro h
  have hone : (parseGga (cstr "$GPGGA,1,48nan,N,00200.0,E,1,,,,,,,,") Gga.init).2 = 1 := by
    decide +kernel
  have hlat : (parseGga (cstr "$GPGGA,1,48nan,N,00200.0,E,1,,,,,,,,") Gga.init).1.pos.lat =
      .nan := by
    decide +kernel
  obtain ⟨degrees, minutes, q, -, -, -, -, -, -, -, hq⟩ := h.latitude hone
  rw [hlat] at hq
  contradiction

end ChilopodCaster
