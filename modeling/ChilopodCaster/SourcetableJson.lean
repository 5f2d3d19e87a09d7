import ChilopodCaster.IsoDate
import ChilopodCaster.JsonText
import ChilopodCaster.SourcetableText

/-!
# Sourcetables between nodes

A node sends its sourcetables to the others as JSON: `sourcetable_json` writes one, and
`sourcetable_from_json` makes a table of what it reads. Only the text of each source line is used of
what is sent for it; its fields are parsed again.

## Main definitions

* `IsoDate.isoDateFromTimeval` — `iso_date_from_timeval`
* `Sourcetable.sourcetableJson` — `sourcetable_json`
* `Sourcetable.Replicates` — a table with the content of another

## Main results

* `IsoDate.isoDate_isoDateFromTimeval` — a time is read back, to the millisecond
* `Sourcetable.fromJson_sourcetableJson` — a fetched table is replicated
-/

namespace ChilopodCaster

/-! ### Writing a date -/

/-- A time to the millisecond. -/
def Timeval.toMillis (t : Timeval) : Timeval := ⟨t.sec, t.usec / 1000 * 1000⟩

namespace IsoDate

/-- `%0wd`, `%0wu` and `%0wlu`, for a number that is not negative. -/
def printPad (w n : ℕ) : CString :=
  List.replicate (w - (printNat 10 n).length) 48 ++ printNat 10 n

/-- `strftime(iso_date, iso_date_len, "%Y-%m-%dT%H:%M:%SZ", &date)`. -/
def strftime (date : Tm) : CString :=
  Json.printInt date.year ++ 45 :: (printPad 2 date.month ++ 45 :: (printPad 2 date.day ++ 84 ::
    (printPad 2 date.hour ++ 58 :: (printPad 2 date.min ++ 58 :: (printPad 2 date.sec ++ [90])))))

/-- `iso_date_from_timeval`, on a buffer of 30 bytes: the fraction is written over what is at offset
19, at most 5 bytes of it, whatever the length of the date. -/
def isoDateFromTimeval (t : Timeval) : CString :=
  let isoDate := strftime (gmtime t.sec)
  if isoDate.length < 19 then isoDate
  else isoDate.take 19 ++ (46 :: (printPad 3 (t.usec.toNat / 1000) ++ [90])).take 5

/-- `timeval_from_iso_date`, on a time of its own. -/
def isoDate (blanks : Blanks) (s : CString) : Option Timeval :=
  let r := timevalFromIsoDate blanks ⟨0, 0⟩ s
  if r.1 = 1 then some r.2 else none

/-- The year has four digits: the text of a date has its places, and `strptime` inverts `strftime`.
-/
def Tm.FourDigits (date : Tm) : Prop := 1000 ≤ date.year ∧ date.year ≤ 9999

instance (date : Tm) : Decidable date.FourDigits := inferInstanceAs (Decidable (_ ∧ _))

theorem pad_succ (w n : ℕ) : pad (w + 1) n = pad w (n / 10) ++ [digitByte (n % 10)] := by
  induction w with
  | zero => rw [pad, pad, pad, Nat.pow_zero, Nat.div_one]; rfl
  | succ w ih =>
    have hdigit : n / 10 ^ (w + 1) % 10 = n / 10 / 10 ^ w % 10 := by
      rw [Nat.div_div_eq_div_mul, Nat.pow_succ, Nat.mul_comm]
    rw [pad, ih, pad, hdigit, List.cons_append]

theorem pad_zero (w : ℕ) : pad w 0 = List.replicate w 48 := by
  induction w with
  | zero => rfl
  | succ w ih =>
    have hzero : digitByte (0 / 10 ^ w % 10) = 48 := by rw [Nat.zero_div]; rfl
    rw [pad, ih, hzero, List.replicate_succ]

/-- **A number that is not too wide for its field has the digits of the field.** -/
theorem printPad_eq_pad {w n : ℕ} (hw : 0 < w) (h : n < 10 ^ w) : printPad w n = pad w n := by
  induction w generalizing n with
  | zero => contradiction
  | succ w ih =>
    rw [printPad, printNat_eq, pad_succ]
    split
    · next hn =>
      rw [List.length_singleton, Nat.add_sub_cancel, Nat.div_eq_of_lt hn, Nat.mod_eq_of_lt hn,
        pad_zero]
    · next hn =>
      have hdiv : n / 10 < 10 ^ w := by rw [Nat.pow_succ] at h; omega
      have hpos : 0 < w := by
        rcases Nat.eq_zero_or_pos w with rfl | hpos
        · rw [Nat.pow_zero] at hdiv
          omega
        · exact hpos
      rw [List.length_append, List.length_singleton, Nat.add_sub_add_right, ← List.append_assoc,
        ← printPad, ih hpos hdiv]

theorem decValue_pad {w n : ℕ} (hw : 0 < w) (h : n < 10 ^ w) : decValue (pad w n) = n := by
  have hzeros (k : ℕ) : decValue (List.replicate k 48) = 0 := by
    induction k with
    | zero => rfl
    | succ k ih =>
      have hzero : decValue [(48 : Byte)] = 0 := by decide
      rw [List.replicate_succ, ← List.singleton_append, decValue_append, ih, hzero, Nat.zero_mul]
  rw [← printPad_eq_pad hw h, printPad, decValue_append, hzeros, decValue_printNat, Nat.zero_mul,
    Nat.zero_add]

/-- The year is written with its four digits. -/
theorem printInt_year {date : Tm} (h : date.FourDigits) :
    Json.printInt date.year = pad 4 date.year.toNat := by
  obtain ⟨hlo, hhi⟩ := h
  have hlt : date.year.natAbs < 10 ^ 4 := by omega
  have hlong : ¬ (printNat 10 date.year.natAbs).length ≤ 3 := by
    rw [length_printNat_le (by decide)]
    omega
  have habs : date.year.toNat = date.year.natAbs := by omega
  rw [Json.printInt, if_neg (by omega), habs, ← printPad_eq_pad (by decide) hlt, printPad,
    Nat.sub_eq_zero_of_le (by omega)]
  rfl

theorem gmtime_inRange {t : ℤ} (h : (gmtime t).FourDigits) : (gmtime t).InRange where
  year := ⟨by have := h.1; omega, h.2⟩
  month := Calendar.civilMonth_mem _
  day := Calendar.civilDay_mem _
  hour := by dsimp only [gmtime]; omega
  min := by dsimp only [gmtime]; omega
  sec := by dsimp only [gmtime]; omega

theorem strftime_eq {t : ℤ} (h : (gmtime t).FourDigits) :
    strftime (gmtime t) = date19 (gmtime t) ++ [90] := by
  have hr := gmtime_inRange h
  have htwo {n : ℕ} (hn : n ≤ 99) : printPad 2 n = pad 2 n := printPad_eq_pad (by decide) (by omega)
  rw [strftime, date19, printInt_year h, htwo (by have := hr.month; omega),
    htwo (by have := hr.day; omega), htwo (by have := hr.hour; omega),
    htwo (by have := hr.min; omega), htwo (by have := hr.sec; omega)]
  simp only [List.append_assoc, List.cons_append]

/-- The text is a date with three digits for the fraction. -/
theorem isoDateFromTimeval_eq {t : Timeval} (hyear : (gmtime t.sec).FourDigits)
    (husec : 0 ≤ t.usec ∧ t.usec < 1000000) :
    isoDateFromTimeval t = isoText (gmtime t.sec) (pad 3 (t.usec.toNat / 1000)) := by
  have hmillis : t.usec.toNat / 1000 < 10 ^ 3 := by omega
  have hne : pad 3 (t.usec.toNat / 1000) ≠ [] := by
    rw [← List.length_pos_iff, length_pad]
    decide
  have hlong : ¬ (date19 (gmtime t.sec) ++ [90]).length < 19 := by
    rw [List.length_append, length_date19]
    omega
  rw [isoDateFromTimeval, strftime_eq hyear, if_neg hlong, List.take_left' (length_date19 _),
    printPad_eq_pad (by decide) hmillis, isoText, point, if_neg hne, List.take_of_length_le]
  · rfl
  · rw [List.length_cons, List.length_append, length_pad, List.length_singleton]

/-- **A time is read back, to the millisecond.** -/
theorem isoDate_isoDateFromTimeval (blanks : Blanks) {t : Timeval}
    (hyear : (gmtime t.sec).FourDigits) (husec : 0 ≤ t.usec ∧ t.usec < 1000000) :
    isoDate blanks (isoDateFromTimeval t) = some t.toMillis := by
  have hmillis : t.usec.toNat / 1000 < 10 ^ 3 := by omega
  have hfraction : IsFraction (pad 3 (t.usec.toNat / 1000)) :=
    ⟨by rw [length_pad]; decide, isdigit_pad⟩
  have hmicros : usec (pad 3 (t.usec.toNat / 1000)) = t.usec / 1000 * 1000 := by
    rw [usec, List.take_of_length_le (by rw [length_pad]; decide), decValue_append, length_pad,
      decValue_pad (by decide) hmillis]
    have hzeros : decValue (List.replicate (6 - 3) 48) = 0 := by decide
    rw [hzeros, List.length_replicate]
    omega
  rw [isoDate, isoDateFromTimeval_eq hyear husec,
    timevalFromIsoDate_isoText blanks _ (gmtime_inRange hyear) hfraction, timegm_gmtime, hmicros]
  rfl

/-- The text is a C string. -/
theorem nul_not_mem_isoDateFromTimeval {t : Timeval} (hyear : (gmtime t.sec).FourDigits)
    (husec : 0 ≤ t.usec ∧ t.usec < 1000000) : 0 ∉ isoDateFromTimeval t := by
  have hpad (w n : ℕ) : 0#8 ∉ pad w n := fun hmem => absurd (isdigit_pad _ hmem) (by decide)
  have hne : pad 3 (t.usec.toNat / 1000) ≠ [] := by
    rw [← List.length_pos_iff, length_pad]
    decide
  rw [isoDateFromTimeval_eq hyear husec, isoText, date19, point, if_neg hne]
  simp [hpad]

end IsoDate

namespace Sourcetable

variable {F : Type}

/-! ### Writing a table -/

/-- What is sent for a source line. -/
def sourceJson (newDouble : F → Json) (n : Sourceline F) : Json :=
  .object [(cstr "str", .string n.value), (cstr "lat", newDouble n.pos.lat),
    (cstr "lon", newDouble n.pos.lon), (cstr "virtual", .boolean n.IsVirtual)]

/-- The source lines, in the order of the hash table. -/
def mountpointsJson (newDouble : F → Json) (this : Sourcetable F) : Json :=
  .object (this.keyVal.elements.map fun e => (e.1, sourceJson newDouble e.2))

/-- `sourcetable_json`, on a table that has a caster. The local table has no time. -/
def sourcetableJson (newDouble : F → Json) (this : Sourcetable F) : Json :=
  let caster := this.caster.getD []
  .object ([(cstr "host", Json.string caster), (cstr "port", Json.int this.port.toNat),
      (cstr "tls", Json.boolean this.tls), (cstr "pullable", Json.boolean this.pullable),
      (cstr "priority", Json.int this.priority)] ++
    (if caster = localName then []
      else [(cstr "fetch_time", Json.string (IsoDate.isoDateFromTimeval this.fetchTime))]) ++
    [(cstr "mountpoints", this.mountpointsJson newDouble)])

/-! ### Reading it -/

/-- The fields of a table other than its lines. -/
structure SameFields (this that : Sourcetable F) : Prop where
  caster : that.caster = this.caster
  port : that.port = this.port
  tls : that.tls = this.tls
  pullable : that.pullable = this.pullable
  priority : that.priority = this.priority
  fetchTime : that.fetchTime = this.fetchTime

/-- **The table has the content of another one**: the same lines with all that was parsed of them,
and a time that is the same to the millisecond. -/
structure Replicates (this that : Sourcetable F) : Prop where
  caster : that.caster = this.caster
  port : that.port = this.port
  tls : that.tls = this.tls
  pullable : that.pullable = this.pullable
  priority : that.priority = this.priority
  fetchTime : that.fetchTime = this.fetchTime.toMillis
  line : ∀ key, that.keyVal.get key = this.keyVal.get key

/-- The line is a C string that parses to what is known of it. -/
def Parsed (scanFloat : CString → Option F) (host : CString) (port : BitVec 16) (tls : Bool)
    (n : Sourceline F) : Prop :=
  0 ∉ n.value ∧ Sourceline.newParse scanFloat n.value host port tls true = some n

variable {scanFloat : CString → Option F} {text : Json → CString} {this that : Sourcetable F}
  {host : CString} {port : BitVec 16} {tls : Bool}

theorem SameFields.trans {other : Sourcetable F} (h : this.SameFields that)
    (h' : that.SameFields other) : this.SameFields other :=
  ⟨h'.caster.trans h.caster, h'.port.trans h.port, h'.tls.trans h.tls,
    h'.pullable.trans h.pullable, h'.priority.trans h.priority, h'.fetchTime.trans h.fetchTime⟩

theorem sameFields_addDirect {s : Sourceline F} (h : this.addDirect s = some that) :
    this.SameFields that := by
  rw [addDirect] at h
  split at h
  · contradiction
  · obtain rfl := Option.some.inj h
    exact ⟨rfl, rfl, rfl, rfl, rfl, rfl⟩

theorem sameFields_addUnlocked {entry : CString} {onDemand : Bool}
    (h : this.addUnlocked scanFloat entry onDemand = some that) : this.SameFields that := by
  rcases addUnlocked_eq_some h with ⟨s, hadd⟩ | rfl
  · exact sameFields_addDirect hadd
  · exact ⟨rfl, rfl, rfl, rfl, rfl, rfl⟩

/-- A line that parses starts as a source line does. -/
theorem Parsed.strMark {n : Sourceline F} (h : Parsed scanFloat host port tls n) :
    n.value.take 4 = Sourceline.strMark := by
  have hparse := h.2
  rw [Sourceline.newParse] at hparse
  by_contra hne
  rw [if_pos hne] at hparse
  contradiction

/-- A parsed line that is added again is added as it is. -/
theorem addMountpoint_eq (newDouble : F → Json) {n : Sourceline F}
    (h : Parsed scanFloat host port tls n) (key : CString) (hcaster : this.caster = some host)
    (hport : this.port = port) (htls : this.tls = tls) (hpull : this.pullable = true) :
    addMountpoint scanFloat text this (key, sourceJson newDouble n) = this.addDirect n := by
  have hstr : ((sourceJson newDouble n).objectGet (cstr "str")).getString text = some n.value :=
    Json.getString_string text h.1
  rw [addMountpoint, hstr, Option.bind_eq_bind, Option.bind_some, addUnlocked, if_pos h.strMark,
    hcaster, hport, htls, hpull, Option.getD_some, h.2]
  rfl

/-- **The entries of a table are added one after the other**, to a table that has none of them. -/
theorem exists_foldlM_addMountpoint (newDouble : F → Json) {es : List (CString × Sourceline F)}
    (hes : ∀ e ∈ es, e.2.key = e.1 ∧ Parsed scanFloat host port tls e.2)
    (hnd : (es.map Prod.fst).Nodup) (hcaster : this.caster = some host) (hport : this.port = port)
    (htls : this.tls = tls) (hpull : this.pullable = true)
    (hnew : ∀ e ∈ es, this.keyVal.get e.1 = none) :
    ∃ that, (es.map fun e => (e.1, sourceJson newDouble e.2)).foldlM
        (addMountpoint scanFloat text) this = some that ∧ this.SameFields that ∧
      ∀ key n, that.keyVal.get key = some n ↔ (key, n) ∈ es ∨ this.keyVal.get key = some n := by
  induction es generalizing this with
  | nil => exact ⟨this, rfl, ⟨rfl, rfl, rfl, rfl, rfl, rfl⟩, fun key n => by simp⟩
  | cons e es ih =>
    obtain ⟨key, n⟩ := e
    have hkey : n.key = key := (hes _ List.mem_cons_self).1
    have hparsed : Parsed scanFloat host port tls n := (hes _ List.mem_cons_self).2
    subst hkey
    rw [List.map_cons, List.nodup_cons] at hnd
    obtain ⟨next, hnext⟩ := exists_addDirect (hnew _ List.mem_cons_self)
    have hfields := sameFields_addDirect hnext
    have hget := HashTable.get_add (addDirect_eq_some hnext).1
    have hfresh : ∀ e ∈ es, next.keyVal.get e.1 = none := by
      intro e he
      have hmem : e.1 ∈ es.map Prod.fst := List.mem_map_of_mem he
      have hne : e.1 ≠ n.key := fun heq => hnd.1 (heq ▸ hmem)
      rw [hget, if_neg hne]
      exact hnew e (List.mem_cons_of_mem _ he)
    obtain ⟨that, hthat, hsame, hlines⟩ := ih (fun e he => hes e (List.mem_cons_of_mem _ he)) hnd.2
      (hfields.caster.trans hcaster) (hfields.port.trans hport) (hfields.tls.trans htls)
      (hfields.pullable.trans hpull) hfresh
    refine ⟨that, ?_, hfields.trans hsame, fun key m => ?_⟩
    · rw [List.map_cons, List.foldlM_cons,
        addMountpoint_eq newDouble hparsed n.key hcaster hport htls hpull, hnext]
      exact hthat
    · rw [hlines, hget, List.mem_cons]
      by_cases hkey : key = n.key
      · have hnone : this.keyVal.get key = none := hkey ▸ hnew _ List.mem_cons_self
        rw [if_pos hkey, hnone, hkey]
        simp [or_comm, eq_comm]
      · rw [if_neg hkey]
        simp [hkey]

/-! ### What is fetched is parsed -/

/-- What the lines of a table being fetched are. -/
structure Fetching (scanFloat : CString → Option F) (host : CString) (port : BitVec 16) (tls : Bool)
    (this : Sourcetable F) : Prop where
  ofHost : this.caster = some host
  ofPort : this.port = port
  ofTls : this.tls = tls
  parsed : ∀ key n, this.keyVal.get key = some n → Parsed scanFloat host port tls n

/-- **One more line.** -/
theorem Fetching.addUnlocked {entry : CString} (h : this.Fetching scanFloat host port tls)
    (hnul : 0 ∉ entry) (hadd : this.addUnlocked scanFloat entry true = some that) :
    that.Fetching scanFloat host port tls := by
  have hfields := sameFields_addUnlocked hadd
  refine ⟨hfields.caster.trans h.ofHost, hfields.port.trans h.ofPort, hfields.tls.trans h.ofTls,
    fun key n hget => ?_⟩
  rw [Sourcetable.addUnlocked] at hadd
  split at hadd
  · obtain ⟨s, hs, hdirect⟩ := Option.bind_eq_some_iff.mp hadd
    rw [HashTable.get_add (addDirect_eq_some hdirect).1] at hget
    split at hget
    · obtain rfl := Option.some.inj hget
      rw [h.ofHost, h.ofPort, h.ofTls, Option.getD_some] at hs
      rw [Parsed, Sourceline.value_of_newParse hs]
      exact ⟨hnul, hs⟩
    · exact h.parsed key n hget
  · obtain rfl := Option.some.inj hadd
    exact h.parsed key n hget

/-- What is known of a fetched table. -/
theorem fetching_of_fetch {priority : ℤ} {lines : List CString} {now : Timeval}
    (hlines : ∀ line ∈ lines, 0 ∉ line)
    (h : fetch scanFloat host port tls priority lines now = some this) :
    this.Fetching scanFloat host port tls ∧ this.pullable = true ∧ this.priority = priority ∧
      this.fetchTime = now := by
  obtain ⟨t, hfold, ht⟩ := Option.bind_eq_some_iff.mp h
  obtain rfl := Option.some.inj ht
  have hstart : Fetching scanFloat host port tls
      ({ new (some host) port tls with priority := priority } : Sourcetable F) := by
    refine ⟨rfl, rfl, rfl, fun key n hget => ?_⟩
    rw [new, HashTable.get_new] at hget
    contradiction
  have hrun : t.Fetching scanFloat host port tls ∧ t.priority = priority := by
    refine Fold.preserves_of_mem
      (P := fun t : Sourcetable F => t.Fetching scanFloat host port tls ∧ t.priority = priority)
      (fun t line hmem t' hstep hadd => ?_) ⟨hstart, rfl⟩ hfold
    exact ⟨hstep.1.addUnlocked (hlines line hmem) hadd,
      (sameFields_addUnlocked hadd).priority.trans hstep.2⟩
  exact ⟨⟨hrun.1.ofHost, hrun.1.ofPort, hrun.1.ofTls, hrun.1.parsed⟩, rfl, hrun.2, rfl⟩

/-! ### Replication -/

/-- The table that `sourcetable_from_json` adds the lines to. -/
def received (host : CString) (port : BitVec 16) (tls : Bool) (priority : ℤ) (fetchTime : Timeval) :
    Sourcetable F :=
  { new (some host) port tls with
    pullable := true
    priority := priority
    fetchTime := fetchTime }

/-- The fields of a fetched table are read back. -/
theorem fromJson_fields (newDouble : F → Json) (blanks : IsoDate.Blanks)
    (hf : this.Fetching scanFloat host port tls) (hpull : this.pullable = true)
    (hlocal : host ≠ localName) (hhost : 0 ∉ host)
    (hpriority : -2 ^ 31 ≤ this.priority ∧ this.priority < 2 ^ 31)
    (husec : 0 ≤ this.fetchTime.usec ∧ this.fetchTime.usec < 1000000)
    (hyear : (IsoDate.gmtime this.fetchTime.sec).FourDigits) :
    fromJson scanFloat text (IsoDate.isoDate blanks) (this.sourcetableJson newDouble) =
      some ((this.keyVal.elements.map fun e => (e.1, sourceJson newDouble e.2)).foldlM
        (addMountpoint scanFloat text)
        (received host port tls this.priority this.fetchTime.toMillis)) := by
  have hport : BitVec.ofInt 16 (Json.int this.port.toNat).getInt = port := by
    have hget : (Json.int this.port.toNat).getInt = this.port.toNat := by
      have hlt := this.port.isLt
      rw [Json.getInt, Json.clamp]
      omega
    rw [hget, hf.ofPort, BitVec.ofInt_natCast, BitVec.ofNat_toNat, BitVec.setWidth_eq]
  have hprio : (Json.int this.priority).getInt = this.priority := by
    rw [Json.getInt, Json.clamp]
    omega
  have hdate : ((Json.string (IsoDate.isoDateFromTimeval this.fetchTime)).getString text).bind
      (IsoDate.isoDate blanks) = some this.fetchTime.toMillis := by
    rw [Json.getString_string text (IsoDate.nul_not_mem_isoDateFromTimeval hyear husec),
      Option.bind_some, IsoDate.isoDate_isoDateFromTimeval blanks hyear husec]
  have hkept : (Json.string host).getString text = some host := Json.getString_string text hhost
  obtain ⟨j, hj⟩ : ∃ j, j = this.sourcetableJson newDouble := ⟨_, rfl⟩
  rw [← hj]
  rw [sourcetableJson, hf.ofHost, Option.getD_some, if_neg hlocal, hf.ofTls, hpull] at hj
  have jhost : j.objectGet (cstr "host") = .string host := by rw [hj]; rfl
  have jport : j.objectGet (cstr "port") = .int this.port.toNat := by rw [hj]; rfl
  have jtls : j.objectGet (cstr "tls") = .boolean tls := by rw [hj]; rfl
  have jpull : j.objectGet (cstr "pullable") = .boolean true := by rw [hj]; rfl
  have jprio : j.objectGet (cstr "priority") = .int this.priority := by rw [hj]; rfl
  have jdate : j.objectGet (cstr "fetch_time") =
      .string (IsoDate.isoDateFromTimeval this.fetchTime) := by rw [hj]; rfl
  have tlist : j.objectGet (cstr "mountpoints") = this.mountpointsJson newDouble := by rw [hj]; rfl
  rw [fromJson]
  simp only [jhost, jport, jtls, jpull, jprio, jdate, tlist, hport, hprio, hdate, hkept]
  rfl

/-- **A fetched table is replicated**: what a node sends of it is read as a table with the same
content. -/
theorem fromJson_sourcetableJson (newDouble : F → Json) (blanks : IsoDate.Blanks) {priority : ℤ}
    {lines : List CString} {now : Timeval} (hlocal : host ≠ localName) (hhost : 0 ∉ host)
    (hlines : ∀ line ∈ lines, 0 ∉ line) (hpriority : -2 ^ 31 ≤ priority ∧ priority < 2 ^ 31)
    (husec : 0 ≤ now.usec ∧ now.usec < 1000000) (hyear : (IsoDate.gmtime now.sec).FourDigits)
    (h : fetch scanFloat host port tls priority lines now = some this) :
    ∃ that, fromJson scanFloat text (IsoDate.isoDate blanks) (this.sourcetableJson newDouble) =
      some (some that) ∧ this.Replicates that := by
  obtain ⟨hf, hpull, rfl, rfl⟩ := fetching_of_fetch hlines h
  have hentries : ∀ e ∈ this.keyVal.elements,
      e.2.key = e.1 ∧ Parsed scanFloat host port tls e.2 := by
    intro e he
    have hget := this.keyVal.mem_elements.mp he
    exact ⟨this.keyed _ _ hget, hf.parsed _ _ hget⟩
  let start : Sourcetable F := received host port tls this.priority this.fetchTime.toMillis
  have hnew (key : CString) : start.keyVal.get key = none :=
    HashTable.get_new HashTable.zero_lt_509 key
  obtain ⟨that, hthat, hsame, hmap⟩ := @exists_foldlM_addMountpoint F scanFloat text start host
    port tls newDouble _ hentries this.keyVal.nodup_elements rfl rfl rfl rfl fun e _ => hnew e.1
  refine ⟨that, ?_, ?_⟩
  · rw [fromJson_fields newDouble blanks hf hpull hlocal hhost hpriority husec hyear, hthat]
  · refine ⟨hsame.caster.trans hf.ofHost.symm, hsame.port.trans hf.ofPort.symm,
      hsame.tls.trans hf.ofTls.symm, hsame.pullable.trans hpull.symm, hsame.priority,
      hsame.fetchTime, fun key => Option.ext fun n => ?_⟩
    rw [hmap, HashTable.mem_elements, hnew, or_iff_left (Option.some_ne_none n).symm]

/-- A fetched table with a virtual source. -/
theorem replicates_virtual : ∃ this that : Sourcetable ℤ,
    fetch strtoll (cstr "caster.example") 2101 true 20
      [cstr "CAS;a", cstr "STR;M;;;;;;;;48;2;1;;;;;;9600;"] ⟨1705314600, 123456⟩ = some this ∧
    fromJson strtoll (fun _ => []) (IsoDate.isoDate IsoDate.spaces)
      (this.sourcetableJson .int) = some (some that) ∧ this.Replicates that ∧
    (that.keyVal.get (cstr "M")).map (·.virt) = some 1 ∧
    that.fetchTime = ⟨1705314600, 123000⟩ := by
  have hobserve : (fetch strtoll (cstr "caster.example") 2101 true 20
      [cstr "CAS;a", cstr "STR;M;;;;;;;;48;2;1;;;;;;9600;"] ⟨1705314600, 123456⟩).map
      (fun this => ((this.keyVal.get (cstr "M")).map (·.virt), this.fetchTime)) =
        some (some 1, ⟨1705314600, 123456⟩) := by
    decide +kernel
  obtain ⟨this, hfetch, hthis⟩ := Option.map_eq_some_iff.mp hobserve
  obtain ⟨hvirt, htime⟩ := Prod.mk.inj hthis
  obtain ⟨that, hthat, hr⟩ := @fromJson_sourcetableJson ℤ strtoll (fun _ => []) this _ _ _ .int
    IsoDate.spaces _ _ _ (by decide) (by decide) (by decide) (by decide) (by decide)
    (by decide +kernel) hfetch
  refine ⟨this, that, hfetch, hthat, hr, ?_, ?_⟩
  · rw [hr.line, hvirt]
  · rw [hr.fetchTime, htime]
    rfl

end Sourcetable

end ChilopodCaster
