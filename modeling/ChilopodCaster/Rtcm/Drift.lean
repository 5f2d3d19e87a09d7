import ChilopodCaster.Rtcm.Position
import ChilopodCaster.Rtcm.Typesets
import Mathlib.Algebra.Order.Field.Basic
import Mathlib.Analysis.SpecialFunctions.Complex.Arg

/-!
# The drift of the bases

Each position that a base sends is compared with the position declared for it in the sourcetable,
where there is one, and its altitude is compared with the first that was sent. The averages of the
deviations are updated in place: with the `n`-th sample, an average moves by an `n`-th of its
distance to the sample. There is one counter of samples for the three averages, and it counts every
position, with a declared one or not.

The arithmetic is exact, in an ordered field with the functions of the mathematical library.

## Main definitions

* `RtcmInfo` — `struct rtcm_info`
* `RtcmInfo.updateDrift` — `rtcm_info_update_drift`
* `Means` — the averages are the means of the deviations

## Main results

* `mean_append_singleton_iff` — when an average is updated as it should be
* `means_iff` — when the averages are means throughout a run
-/

namespace ChilopodCaster

namespace Rtcm

/-! ### The functions -/

/-- The functions of the mathematical library. -/
structure Libm (K : Type) where
  sqrt : K → K
  hypot : K → K → K
  atan2 : K → K → K
  sin : K → K
  cos : K → K
  /-- `M_PI` -/
  pi : K

section

variable {K : Type} [Field K] [LinearOrder K] (m : Libm K)

/-- `ecef_to_lat_lon`: the position and the altitude. -/
def ecefToLatLon (ecefX ecefY ecefZ : BitVec 64) : Pos K × K :=
  let a : K := 6378137
  let e : K := 8.1819190842622e-2
  let a2 := a * a
  let e2 := e * e
  let b := m.sqrt (a2 * (1 - e2))
  let b2 := b * b
  let ep := m.sqrt ((a2 - b2) / b2)
  let ep2 := ep * ep
  let x := (ecefX.toInt : K) / 10000
  let y := (ecefY.toInt : K) / 10000
  let z := (ecefZ.toInt : K) / 10000
  let p := m.hypot x y
  let theta := m.atan2 (a * z) (b * p)
  let cost := m.cos theta
  let sint := m.sin theta
  let lon := m.atan2 y x
  let lat := m.atan2 (z + ep2 * b * sint * sint * sint) (p - e2 * a * cost * cost * cost)
  let sinlat := m.sin lat
  let n := a / m.sqrt (1 - e2 * sinlat * sinlat)
  let alt := p / m.cos lat - n
  (⟨lat * (180 / m.pi), lon * (180 / m.pi)⟩, alt)

/-- `METERS_PER_DEG_LAT`. -/
def metersPerDegLat : K := 111320

/-- `struct rtcm_info`. The counter of samples is an `int`, which no session makes overflow. -/
structure RtcmInfo (K : Type) extends PosInfo where
  typeset : Typeset
  driftSamples : ℕ
  hasLatLonDrift : Bool
  avgLatDriftMm : K
  avgLonDriftMm : K
  avgAltDriftMm : K
  hasBaselineAlt : Bool
  baselineAlt : K
  lastObservedPos : Pos K
  lastObservedAlt : K
  lastDeclaredPos : Pos K

/-- `rtcm_info_new`. -/
def RtcmInfo.new (pos : PosInfo) : RtcmInfo K where
  toPosInfo := pos
  typeset := Typeset.init
  driftSamples := 0
  hasLatLonDrift := false
  avgLatDriftMm := 0
  avgLonDriftMm := 0
  avgAltDriftMm := 0
  hasBaselineAlt := false
  baselineAlt := 0
  lastObservedPos := ⟨0, 0⟩
  lastObservedAlt := 0
  lastDeclaredPos := ⟨0, 0⟩

/-- `lat_diff_mm`. -/
def latDiffMm (observed declaredPos : Pos K) : K :=
  (observed.lat - declaredPos.lat) * metersPerDegLat * (1000 : ℕ)

/-- `lon_diff_mm`. -/
def lonDiffMm (observed declaredPos : Pos K) : K :=
  (observed.lon - declaredPos.lon) * metersPerDegLat * m.cos (declaredPos.lat * m.pi / 180) *
    (1000 : ℕ)

/-- The part of `rtcm_info_update_drift` for a declared position. -/
def RtcmInfo.updateLatLon (this : RtcmInfo K) (observed declaredPos : Pos K) : RtcmInfo K :=
  let n : ℕ := if this.hasLatLonDrift then this.driftSamples + 1 else 1
  { this with
    lastDeclaredPos := declaredPos
    avgLatDriftMm := this.avgLatDriftMm +
      (|latDiffMm observed declaredPos| - this.avgLatDriftMm) / n
    avgLonDriftMm := this.avgLonDriftMm +
      (|lonDiffMm m observed declaredPos| - this.avgLonDriftMm) / n
    hasLatLonDrift := true }

/-- The part of `rtcm_info_update_drift` for the altitude. -/
def RtcmInfo.updateAlt (this : RtcmInfo K) (alt : K) : RtcmInfo K :=
  if !this.hasBaselineAlt then { this with baselineAlt := alt, hasBaselineAlt := true }
  else
    let altDiffMm := (alt - this.baselineAlt) * (1000 : ℕ)
    { this with
      avgAltDriftMm := this.avgAltDriftMm +
        (|altDiffMm| - this.avgAltDriftMm) / ((this.driftSamples + 1 : ℕ) : K) }

/-- `rtcm_info_update_drift`. -/
def RtcmInfo.updateDrift (this : RtcmInfo K) (declaredPos : Option (Pos K)) : RtcmInfo K :=
  if !this.typeset.check 1005 && !this.typeset.check 1006 then this
  else
    let (observed, alt) := ecefToLatLon m this.x this.y this.z
    let this := { this with lastObservedPos := observed, lastObservedAlt := alt }
    let this := match declaredPos with
      | none => this
      | some declaredPos => this.updateLatLon m observed declaredPos
    let this := this.updateAlt alt
    { this with driftSamples := this.driftSamples + 1 }

/-- `rtcm_handler_pos`, for the position declared in the sourcetable, if any. -/
def rtcmHandlerPos (rp : RtcmInfo K) (type : BitVec 16) (p : Packet) (now : Timeval)
    (declaredPos : Option (Pos K)) : Option (RtcmInfo K) :=
  (rp.toPosInfo.handle10051006 type p now).map fun pos =>
    RtcmInfo.updateDrift m { rp with toPosInfo := pos } declaredPos

end

/-! ### Means -/

section Mean

variable {K : Type} [Field K]

/-- The arithmetic mean. -/
def mean (l : List K) : K := l.sum / l.length

theorem mean_nil : mean ([] : List K) = 0 := zero_div _

variable [CharZero K]

/-- The mean moves towards a new sample. -/
theorem mean_append_singleton (l : List K) (x : K) :
    mean (l ++ [x]) = mean l + (x - mean l) / ((l.length + 1 : ℕ) : K) := by
  have hsucc : ((l.length + 1 : ℕ) : K) ≠ 0 := Nat.cast_ne_zero.mpr (Nat.succ_ne_zero _)
  have hsum : mean l * l.length = l.sum := by
    rw [mean]
    refine div_mul_cancel_of_imp fun hzero => ?_
    rw [List.eq_nil_of_length_eq_zero (Nat.cast_eq_zero.mp hzero), List.sum_nil]
  have hlength : (l ++ [x]).length = l.length + 1 := List.length_append
  have hcast : ((l.length + 1 : ℕ) : K) = l.length + 1 := Nat.cast_succ _
  rw [mean, List.sum_append, List.sum_singleton, hlength, div_eq_iff hsucc, add_mul,
    div_mul_cancel₀ _ hsucc, hcast, mul_add, hsum, mul_one]
  ring

/-- **An update.** A mean that is moved by an `n`-th of the distance to a sample is the new mean if
`n` is the number of samples, or the sample is the mean. -/
theorem mean_append_singleton_iff (l : List K) (x : K) {n : ℕ} (hn : n ≠ 0) :
    mean l + (x - mean l) / (n : K) = mean (l ++ [x]) ↔ n = l.length + 1 ∨ x = mean l := by
  have hn' : (n : K) ≠ 0 := Nat.cast_ne_zero.mpr hn
  have hsucc : ((l.length + 1 : ℕ) : K) ≠ 0 := Nat.cast_ne_zero.mpr (Nat.succ_ne_zero _)
  rw [mean_append_singleton, add_right_inj, div_eq_div_iff hn' hsucc, mul_eq_mul_left_iff,
    Nat.cast_inj, sub_eq_zero, eq_comm (a := n)]

end Mean

/-! ### Runs -/

section Runs

variable {K : Type} [Field K] [LinearOrder K]

/-- What `rtcm_info_update_drift` is called with: the position in the `struct rtcm_info` then, its
types seen, one of which is a position, and the position declared, if any. -/
structure Call (K : Type) where
  pos : PosInfo
  typeset : Typeset
  declaredPos : Option (Pos K)
  holds : typeset.check 1005 = true ∨ typeset.check 1006 = true

variable (m : Libm K)

/-- The position sent by the base. -/
def Call.observed (c : Call K) : Pos K := (ecefToLatLon m c.pos.x c.pos.y c.pos.z).1

/-- The altitude sent by the base. -/
def Call.alt (c : Call K) : K := (ecefToLatLon m c.pos.x c.pos.y c.pos.z).2

/-- One call. -/
def RtcmInfo.call (this : RtcmInfo K) (c : Call K) : RtcmInfo K :=
  RtcmInfo.updateDrift m { this with toPosInfo := c.pos, typeset := c.typeset } c.declaredPos

/-- Some calls in turn. -/
def RtcmInfo.calls (this : RtcmInfo K) (l : List (Call K)) : RtcmInfo K := l.foldl (call m) this

/-- The deviations in latitude, for the calls with a declared position. -/
def latDeviations (l : List (Call K)) : List K :=
  l.filterMap fun c => c.declaredPos.map fun d => |latDiffMm (c.observed m) d|

/-- The deviations in longitude, for the calls with a declared position. -/
def lonDeviations (l : List (Call K)) : List K :=
  l.filterMap fun c => c.declaredPos.map fun d => |lonDiffMm m (c.observed m) d|

/-- The altitude at the first call. -/
def firstAlt (l : List (Call K)) : K := (l.head?.map (Call.alt m)).getD 0

/-- The deviations in altitude, for all calls. -/
def altDeviations (l : List (Call K)) : List K :=
  l.map fun c => |(c.alt m - firstAlt m l) * (1000 : ℕ)|

/-- The averages are the means of the deviations. -/
structure Means (this : RtcmInfo K) (l : List (Call K)) : Prop where
  lat : this.avgLatDriftMm = mean (latDeviations m l)
  lon : this.avgLonDriftMm = mean (lonDeviations m l)
  alt : this.avgAltDriftMm = mean (altDeviations m l)

/-- A call after some others that the averages are updated rightly for. Where a position is
declared, it is the first declared, or there was one at each call before, or the deviations are the
means. -/
def Fair (l : List (Call K)) (c : Call K) : Prop :=
  ∀ d ∈ c.declaredPos, (∀ b ∈ l, b.declaredPos = none) ∨ (∀ b ∈ l, b.declaredPos ≠ none) ∨
    |latDiffMm (c.observed m) d| = mean (latDeviations m l) ∧
      |lonDiffMm m (c.observed m) d| = mean (lonDeviations m l)

/-- What holds whether the averages are right or not. -/
structure Counts (this : RtcmInfo K) (l : List (Call K)) : Prop where
  driftSamples : this.driftSamples = l.length
  hasLatLonDrift : this.hasLatLonDrift = l.any (·.declaredPos.isSome)
  hasBaselineAlt : this.hasBaselineAlt = !l.isEmpty
  baselineAlt : this.baselineAlt = firstAlt m l
  avgAltDriftMm : this.avgAltDriftMm = mean (altDeviations m l)

/-- **One call.** -/
theorem call_eq (this : RtcmInfo K) (c : Call K) :
    (this.call m c).driftSamples = this.driftSamples + 1 ∧
      (this.call m c).hasLatLonDrift = (this.hasLatLonDrift || c.declaredPos.isSome) ∧
      (this.call m c).hasBaselineAlt = true ∧
      (this.call m c).baselineAlt =
        (if this.hasBaselineAlt then this.baselineAlt else c.alt m) ∧
      (this.call m c).avgAltDriftMm = if this.hasBaselineAlt then this.avgAltDriftMm +
        (|(c.alt m - this.baselineAlt) * (1000 : ℕ)| - this.avgAltDriftMm) /
          ((this.driftSamples + 1 : ℕ) : K) else this.avgAltDriftMm := by
  have hholds : (!c.typeset.check 1005 && !c.typeset.check 1006) = false := by
    rcases c.holds with h | h <;> simp [h]
  rw [RtcmInfo.call, RtcmInfo.updateDrift, hholds]
  cases hdeclared : c.declaredPos <;> cases hbaseline : this.hasBaselineAlt <;>
    simp [RtcmInfo.updateAlt, RtcmInfo.updateLatLon, Call.alt]

/-- The averages for the declared positions are updated with a counter that is not their own. -/
theorem call_avg_eq (this : RtcmInfo K) (c : Call K) :
    (this.call m c).avgLatDriftMm = c.declaredPos.elim this.avgLatDriftMm (fun d =>
        this.avgLatDriftMm + (|latDiffMm (c.observed m) d| - this.avgLatDriftMm) /
          ((if this.hasLatLonDrift then this.driftSamples + 1 else 1 : ℕ) : K)) ∧
      (this.call m c).avgLonDriftMm = c.declaredPos.elim this.avgLonDriftMm (fun d =>
        this.avgLonDriftMm + (|lonDiffMm m (c.observed m) d| - this.avgLonDriftMm) /
          ((if this.hasLatLonDrift then this.driftSamples + 1 else 1 : ℕ) : K)) := by
  have hholds : (!c.typeset.check 1005 && !c.typeset.check 1006) = false := by
    rcases c.holds with h | h <;> simp [h]
  rw [RtcmInfo.call, RtcmInfo.updateDrift, hholds]
  cases hdeclared : c.declaredPos <;> cases hbaseline : this.hasBaselineAlt <;>
    simp [RtcmInfo.updateAlt, RtcmInfo.updateLatLon, Call.observed]

omit [LinearOrder K] in
theorem firstAlt_append {l : List (Call K)} (hl : l ≠ []) (c : Call K) :
    firstAlt m (l ++ [c]) = firstAlt m l := by
  obtain ⟨b, l, rfl⟩ := List.exists_cons_of_ne_nil hl
  rfl

theorem altDeviations_append {l : List (Call K)} (hl : l ≠ []) (c : Call K) :
    altDeviations m (l ++ [c]) =
      altDeviations m l ++ [|(c.alt m - firstAlt m l) * (1000 : ℕ)|] := by
  rw [altDeviations, firstAlt_append m hl, List.map_append]
  rfl

variable {m}

theorem counts_new (pos : PosInfo) : Counts m (RtcmInfo.new pos : RtcmInfo K) [] where
  driftSamples := rfl
  hasLatLonDrift := rfl
  hasBaselineAlt := rfl
  baselineAlt := rfl
  avgAltDriftMm := mean_nil.symm

variable [IsStrictOrderedRing K]

/-- The counter counts every call, and the altitudes are averaged as they should be. -/
theorem counts_call {this : RtcmInfo K} {l : List (Call K)} (h : Counts m this l) (c : Call K) :
    Counts m (this.call m c) (l ++ [c]) := by
  obtain ⟨hsamples, hlatLon, hhas, hbaseline, havg⟩ := call_eq m this c
  refine ⟨?_, ?_, ?_, ?_, ?_⟩
  · rw [hsamples, h.driftSamples, List.length_append, List.length_singleton]
  · rw [hlatLon, h.hasLatLonDrift, List.any_append]
    simp
  · rw [hhas]
    cases l <;> rfl
  · rw [hbaseline, h.hasBaselineAlt, h.baselineAlt]
    cases l with
    | nil => rfl
    | cons b l => rfl
  · rw [havg, h.hasBaselineAlt, h.baselineAlt, h.avgAltDriftMm, h.driftSamples]
    cases l with
    | nil =>
      have hself : altDeviations m ([] ++ [c]) = [|(c.alt m - c.alt m) * (1000 : ℕ)|] := rfl
      rw [hself, sub_self, zero_mul, abs_zero]
      exact mean_nil.trans (by rw [mean, List.sum_singleton, zero_div])
    | cons b l =>
      have hlength : (altDeviations m (b :: l)).length = (b :: l).length := List.length_map _
      rw [altDeviations_append m (List.cons_ne_nil b l), mean_append_singleton, hlength]
      rfl

theorem counts_calls (pos : PosInfo) (l : List (Call K)) :
    Counts m ((RtcmInfo.new pos : RtcmInfo K).calls m l) l := by
  induction l using List.reverseRecOn with
  | nil => exact counts_new pos
  | append_singleton l c ih =>
    rw [RtcmInfo.calls, List.foldl_append]
    exact counts_call ih c

omit [IsStrictOrderedRing K] in
/-- The declared positions so far are as many as the number that the counter gives. -/
theorem samples_eq_iff {this : RtcmInfo K} {l : List (Call K)} (h : Counts m this l)
    {f : Call K → Pos K → K} :
    (if this.hasLatLonDrift then this.driftSamples + 1 else 1) =
        (l.filterMap fun c => c.declaredPos.map (f c)).length + 1 ↔
      (∀ b ∈ l, b.declaredPos = none) ∨ ∀ b ∈ l, b.declaredPos ≠ none := by
  have hlength : (l.filterMap fun c => c.declaredPos.map (f c)).length =
      l.countP (·.declaredPos.isSome) := by
    rw [List.length_filterMap_eq_countP]
    exact List.countP_congr fun c _ => by rw [Option.isSome_map]
  rw [h.hasLatLonDrift, h.driftSamples, hlength]
  by_cases hany : l.any (·.declaredPos.isSome) = true
  · have hnot : ¬ ∀ b ∈ l, b.declaredPos = none := by
      intro hnone
      obtain ⟨b, hb, hsome⟩ := List.any_eq_true.mp hany
      rw [hnone b hb] at hsome
      contradiction
    rw [if_pos hany, or_iff_right hnot, Nat.add_right_cancel_iff, eq_comm, List.countP_eq_length]
    exact forall₂_congr fun b _ => Option.isSome_iff_ne_none
  · have hnone : ∀ b ∈ l, b.declaredPos = none := by
      intro b hb
      by_contra hsome
      exact hany (List.any_eq_true.mpr ⟨b, hb, Option.isSome_iff_ne_none.mpr hsome⟩)
    rw [if_neg hany]
    refine iff_of_true ?_ (Or.inl hnone)
    rw [eq_comm, Nat.add_eq_right, List.countP_eq_zero]
    intro b hb
    rw [hnone b hb]
    exact Bool.false_ne_true

omit [Field K] [LinearOrder K] [IsStrictOrderedRing K] in
theorem filterMap_append_declared {f : Call K → Pos K → K} (l : List (Call K)) {c : Call K}
    {d : Pos K} (hd : c.declaredPos = some d) :
    (l ++ [c]).filterMap (fun c => c.declaredPos.map (f c)) =
      (l.filterMap fun c => c.declaredPos.map (f c)) ++ [f c d] := by
  rw [List.filterMap_append, List.filterMap_cons, hd]
  rfl

omit [Field K] [LinearOrder K] [IsStrictOrderedRing K] in
theorem filterMap_append_undeclared {f : Call K → Pos K → K} (l : List (Call K)) {c : Call K}
    (hd : c.declaredPos = none) :
    (l ++ [c]).filterMap (fun c => c.declaredPos.map (f c)) =
      l.filterMap fun c => c.declaredPos.map (f c) := by
  rw [List.filterMap_append, List.filterMap_cons, hd]
  exact List.append_nil _

/-- **One more call.** The averages stay means if the call is fair. -/
theorem means_call_iff {this : RtcmInfo K} {l : List (Call K)} (hcounts : Counts m this l)
    (h : Means m this l) (c : Call K) : Means m (this.call m c) (l ++ [c]) ↔ Fair m l c := by
  have halt := (counts_call hcounts c).avgAltDriftMm
  obtain ⟨hlat, hlon⟩ := call_avg_eq m this c
  have hmeans : Means m (this.call m c) (l ++ [c]) ↔
      (this.call m c).avgLatDriftMm = mean (latDeviations m (l ++ [c])) ∧
        (this.call m c).avgLonDriftMm = mean (lonDeviations m (l ++ [c])) :=
    ⟨fun h => ⟨h.lat, h.lon⟩, fun h => ⟨h.1, h.2, halt⟩⟩
  rw [hmeans, hlat, hlon, h.lat, h.lon, latDeviations, latDeviations, lonDeviations, lonDeviations,
    Fair]
  cases hd : c.declaredPos with
  | none =>
    rw [filterMap_append_undeclared l hd, filterMap_append_undeclared l hd]
    refine iff_of_true ⟨rfl, rfl⟩ ?_
    rintro d ⟨⟩
  | some d =>
    have hpos : (if this.hasLatLonDrift then this.driftSamples + 1 else 1) ≠ 0 := by
      split
      · exact Nat.succ_ne_zero _
      · exact Nat.one_ne_zero
    rw [filterMap_append_declared l hd, filterMap_append_declared l hd]
    rw [Option.elim_some, Option.elim_some, mean_append_singleton_iff _ _ hpos,
      mean_append_singleton_iff _ _ hpos, samples_eq_iff hcounts, samples_eq_iff hcounts,
      ← or_and_left, or_assoc]
    refine ⟨?_, fun hfair => hfair d rfl⟩
    rintro hfair _ ⟨⟩
    exact hfair

/-- **When the averages are means.** Throughout a run, if each of its calls is fair. -/
theorem means_iff (pos : PosInfo) (l : List (Call K)) :
    (∀ l', l' <+: l → Means m ((RtcmInfo.new pos : RtcmInfo K).calls m l') l') ↔
      ∀ l' c, l' ++ [c] <+: l → Fair m l' c := by
  have hsnoc (l : List (Call K)) (c : Call K) : (RtcmInfo.new pos : RtcmInfo K).calls m (l ++ [c]) =
      ((RtcmInfo.new pos : RtcmInfo K).calls m l).call m c := List.foldl_append
  constructor
  · intro h l' c hprefix
    have hbefore := h l' ((List.prefix_append l' [c]).trans hprefix)
    have hafter := h (l' ++ [c]) hprefix
    rw [hsnoc] at hafter
    exact (means_call_iff (counts_calls pos l') hbefore c).mp hafter
  · intro h l'
    induction l' using List.reverseRecOn with
    | nil => exact fun _ => ⟨mean_nil.symm, mean_nil.symm, mean_nil.symm⟩
    | append_singleton l' c ih =>
      intro hprefix
      rw [hsnoc]
      exact (means_call_iff (counts_calls pos l')
        (ih ((List.prefix_append l' [c]).trans hprefix)) c).mpr (h l' c hprefix)

end Runs

/-! ### A base on the equator -/

/-- The functions of the library, on real numbers. -/
noncomputable def realLibm : Libm ℝ where
  sqrt := Real.sqrt
  hypot x y := Real.sqrt (x ^ 2 + y ^ 2)
  atan2 y x := Complex.arg ⟨x, y⟩
  sin := Real.sin
  cos := Real.cos
  pi := Real.pi

/-- A call for a base on the equator and the prime meridian, with a position declared on the equator
at some longitude, or none. -/
noncomputable def equatorCall (declaredLon : Option ℝ) : Call ℝ where
  pos := ⟨63781370000, 0, 0, none, none, ⟨0, 0⟩, ⟨0, 0⟩, ⟨0, 0⟩⟩
  typeset := (Typeset.init.set 1005).getD Typeset.init
  declaredPos := declaredLon.map fun lon => ⟨0, lon⟩
  holds := Or.inl (by decide +kernel)

theorem lonDiffMm_equatorCall (declaredLon : Option ℝ) (lon : ℝ) :
    lonDiffMm realLibm ((equatorCall declaredLon).observed realLibm) ⟨0, lon⟩ =
      -lon * 111320 * (1000 : ℕ) := by
  have hx : (63781370000 : BitVec 64).toInt = 63781370000 := by decide
  have hy : (0 : BitVec 64).toInt = 0 := by decide
  have hlon : ((equatorCall declaredLon).observed realLibm).lon = 0 := by
    have harg : Complex.arg ⟨(63781370000 : ℝ) / 10000, 0⟩ = 0 :=
      Complex.arg_ofReal_of_nonneg (by norm_num)
    have hobserved : ((equatorCall declaredLon).observed realLibm).lon =
        Complex.arg ⟨((63781370000 : BitVec 64).toInt : ℝ) / 10000,
          ((0 : BitVec 64).toInt : ℝ) / 10000⟩ * (180 / Real.pi) := rfl
    rw [hobserved, hx, hy, Int.cast_zero, zero_div, Int.cast_ofNat, harg, zero_mul]
  rw [lonDiffMm, hlon, metersPerDegLat, zero_mul, zero_div]
  have hcos : realLibm.cos 0 = 1 := Real.cos_zero
  rw [hcos, zero_sub, mul_one]

/-- Calls with a declared position each are fair. -/
theorem means_iff_declared :
    (∀ l', l' <+: [equatorCall (some 0), equatorCall (some 1)] →
      Means realLibm ((RtcmInfo.new (PosInfo.new 0 0 0 ⟨0, 0⟩) : RtcmInfo ℝ).calls realLibm l')
        l') ↔
      ∀ l' c, l' ++ [c] <+: [equatorCall (some 0), equatorCall (some 1)] → Fair realLibm l' c :=
  means_iff (PosInfo.new 0 0 0 ⟨0, 0⟩) [equatorCall (some 0), equatorCall (some 1)]

/-- A position is declared from the second call on. The third call counts three samples where there
are two. -/
theorem not_means_declaredLate :
    ¬ Means realLibm ((RtcmInfo.new (PosInfo.new 0 0 0 ⟨0, 0⟩) : RtcmInfo ℝ).calls realLibm
      [equatorCall none, equatorCall (some 0), equatorCall (some 1)])
      [equatorCall none, equatorCall (some 0), equatorCall (some 1)] := by
  have hone : Means realLibm
      ((RtcmInfo.new (PosInfo.new 0 0 0 ⟨0, 0⟩) : RtcmInfo ℝ).calls realLibm [equatorCall none])
      [equatorCall none] := by
    refine (means_call_iff (m := realLibm) (counts_new (PosInfo.new 0 0 0 ⟨0, 0⟩))
      ⟨mean_nil.symm, mean_nil.symm, mean_nil.symm⟩ (equatorCall none)).mpr ?_
    rintro d ⟨⟩
  have htwo : Means realLibm ((RtcmInfo.new (PosInfo.new 0 0 0 ⟨0, 0⟩) : RtcmInfo ℝ).calls realLibm
      [equatorCall none, equatorCall (some 0)]) [equatorCall none, equatorCall (some 0)] := by
    refine (means_call_iff (counts_calls _ [equatorCall none]) hone (equatorCall (some 0))).mpr ?_
    refine fun d _ => Or.inl fun b hb => ?_
    rw [List.mem_singleton.mp hb]
    rfl
  intro hthree
  have hfair := (means_call_iff (counts_calls _ [equatorCall none, equatorCall (some 0)]) htwo
    (equatorCall (some 1))).mp hthree
  rcases hfair ⟨0, 1⟩ rfl with hnone | hdeclared | ⟨-, hlon⟩
  · exact Option.some_ne_none _ (hnone (equatorCall (some 0)) (by simp))
  · exact hdeclared (equatorCall none) (by simp) rfl
  · have hmean : mean (lonDeviations realLibm [equatorCall none, equatorCall (some 0)]) = 0 := by
      have hone : lonDeviations realLibm [equatorCall none, equatorCall (some 0)] =
          [|lonDiffMm realLibm ((equatorCall (some 0)).observed realLibm) ⟨0, 0⟩|] := rfl
      rw [hone, lonDiffMm_equatorCall, mean, List.sum_singleton]
      norm_num
    rw [hmean, lonDiffMm_equatorCall, abs_eq_zero] at hlon
    norm_num at hlon

end Rtcm

end ChilopodCaster
