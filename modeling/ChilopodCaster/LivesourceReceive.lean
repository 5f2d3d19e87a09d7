import ChilopodCaster.LivesourceSync

/-!
# Messages about livesources that are not understood

Another node may send any JSON value. `livesource_update_execute` checks that some of the fields it
needs are there, and not the others: it hands null pointers to `strcmp` and to the hash table, takes
the length of endpoints that are no array, goes through livesources that are no object, and stores
the value -1 for a state or a type that it does not know.

## Main definitions

* `Json.Parsed` — a value that json-c can have parsed
* `Livesources.Handled` — a message is answered, and what it stores has a meaning
* `Livesources.Understood` — the fields that are looked at are there, with the types and values
  expected

## Main results

* `Livesources.handled_iff_understood` — the messages that are handled are those understood
-/

namespace ChilopodCaster

/-- The keys of an object that json-c has parsed are distinct: a value replaces the one before. -/
inductive Json.Parsed : Json → Prop
  | null : Parsed .null
  | boolean (b : Bool) : Parsed (.boolean b)
  | double (x : ℚ) : Parsed (.double x)
  | int (i : ℤ) : Parsed (.int i)
  | string (s : CString) : Parsed (.string s)
  | array {l : List Json} (h : ∀ j ∈ l, Parsed j) : Parsed (.array l)
  | object {fields : List (CString × Json)} (hkeys : (fields.map Prod.fst).Nodup)
      (h : ∀ e ∈ fields, Parsed e.2) : Parsed (.object fields)

/-- A field of a parsed value is one. -/
theorem Json.Parsed.objectGet {j : Json} (h : j.Parsed) (key : CString) :
    (j.objectGet key).Parsed := by
  cases h with
  | object hkeys h =>
    rename_i fields
    rw [Json.objectGet]
    cases hfind : fields.find? (·.1 = key) with
    | none => exact .null
    | some e => exact h e (List.mem_of_find?_eq_some hfind)
  | _ => exact .null

theorem Json.Parsed.nodup {fields : List (CString × Json)} (h : (Json.object fields).Parsed) :
    (fields.map Prod.fst).Nodup := by
  cases h with
  | object hkeys _ => exact hkeys

/-- The state and the type of a record have a meaning. -/
def LivesourceRemote.Defined (this : LivesourceRemote) : Prop :=
  this.state.isSome = true ∧ this.type.isSome = true

namespace LivesourcesRemote

variable {text : Json → CString} {ls : Json} {mountpoint : CString}
  {hash hash' : HashTable LivesourceRemote} {fields : List (CString × Json)}

/-- The fields of a livesource are there, and their values are known. -/
def Known (text : Json → CString) (ls : Json) : Prop :=
  ((ls.objectGet (cstr "state")).getString text).any (fun state => (convertState state).isSome) ∧
    ((ls.objectGet (cstr "type")).getString text).any (fun type => (convertType type).isSome)

theorem known_iff : Known text ls ↔
    ∃ lr, convertLivesource text mountpoint ls = some lr ∧ lr.Defined := by
  rw [Known, convertLivesource]
  cases (ls.objectGet (cstr "state")).getString text with
  | none =>
    cases (ls.objectGet (cstr "type")).getString text with
    | none =>
      refine ⟨fun h => absurd h.1 Bool.false_ne_true, ?_⟩
      rintro ⟨_, h, _⟩
      contradiction
    | some type =>
      refine ⟨fun h => absurd h.1 Bool.false_ne_true, ?_⟩
      rintro ⟨_, h, _⟩
      contradiction
  | some state =>
    cases (ls.objectGet (cstr "type")).getString text with
    | none =>
      refine ⟨fun h => absurd h.2 Bool.false_ne_true, ?_⟩
      rintro ⟨_, h, _⟩
      contradiction
    | some type =>
      refine ⟨fun h => ⟨_, rfl, h⟩, ?_⟩
      rintro ⟨lr, hlr, hdefined⟩
      obtain rfl := Option.some.inj hlr
      exact hdefined

/-! ### A full table -/

/-- What is in the table when the loop begins is in it when it ends. -/
theorem get_foldlM_of_get (h : fields.foldlM (addLivesource text) hash = some hash')
    {lr : LivesourceRemote} (hget : hash.get mountpoint = some lr) :
    hash'.get mountpoint = some lr := by
  induction fields generalizing hash with
  | nil =>
    obtain rfl := Option.some.inj h
    exact hget
  | cons e fields ih =>
    rw [List.foldlM_cons] at h
    obtain ⟨hash₁, hstep, h⟩ := Option.bind_eq_some_iff.mp h
    obtain ⟨lr', -, hadd⟩ := Option.bind_eq_some_iff.mp hstep
    refine ih h ?_
    rw [HashTable.get_add hadd, if_neg, hget]
    rintro rfl
    rw [HashTable.get_eq_none_of_add hadd] at hget
    contradiction

/-- Each livesource of the message is stored. -/
theorem exists_get_foldlM (h : fields.foldlM (addLivesource text) hash = some hash')
    {e : CString × Json} (he : e ∈ fields) :
    ∃ lr, convertLivesource text e.1 e.2 = some lr ∧ hash'.get e.1 = some lr := by
  induction fields generalizing hash with
  | nil => exact absurd he List.not_mem_nil
  | cons e' fields ih =>
    rw [List.foldlM_cons] at h
    obtain ⟨hash₁, hstep, hrest⟩ := Option.bind_eq_some_iff.mp h
    obtain ⟨lr, hlr, hadd⟩ := Option.bind_eq_some_iff.mp hstep
    rcases List.mem_cons.mp he with rfl | he
    · refine ⟨lr, hlr, get_foldlM_of_get hrest ?_⟩
      rw [HashTable.get_add hadd, if_pos rfl]
    · exact ih hrest he

/-- The loop ends, if each livesource can be converted. -/
theorem exists_foldlM_addLivesource (hnodup : (fields.map Prod.fst).Nodup)
    (hfree : ∀ e ∈ fields, hash.get e.1 = none)
    (hconvert : ∀ e ∈ fields, ∃ lr, convertLivesource text e.1 e.2 = some lr) :
    ∃ hash', fields.foldlM (addLivesource text) hash = some hash' := by
  induction fields generalizing hash with
  | nil => exact ⟨hash, rfl⟩
  | cons e fields ih =>
    rw [List.map_cons, List.nodup_cons] at hnodup
    obtain ⟨lr, hlr⟩ := hconvert e List.mem_cons_self
    obtain ⟨hash₁, hadd⟩ := HashTable.exists_add (hfree e List.mem_cons_self) lr
    have hstep : addLivesource text hash e = some hash₁ := by
      rw [addLivesource, hlr]
      exact hadd
    rw [List.foldlM_cons, hstep]
    refine ih hnodup.2 (fun e' he' => ?_) fun e' he' => hconvert e' (List.mem_cons_of_mem e he')
    have hne : e'.1 ≠ e.1 := fun heq => hnodup.1 (heq ▸ List.mem_map_of_mem he')
    rw [HashTable.get_add hadd, if_neg hne]
    exact hfree e' (List.mem_cons_of_mem e he')

/-- The loop ends with livesources that have a meaning, if and only if they are known. -/
theorem foldlM_defined_iff (hnodup : (fields.map Prod.fst).Nodup) :
    (∃ hash', fields.foldlM (addLivesource text) (HashTable.new 509 HashTable.zero_lt_509) =
        some hash' ∧ ∀ e ∈ fields, ∀ lr, hash'.get e.1 = some lr → lr.Defined) ↔
      ∀ e ∈ fields, Known text e.2 := by
  constructor
  · rintro ⟨hash', hfold, hdefined⟩ e he
    obtain ⟨lr, hlr, hget⟩ := exists_get_foldlM hfold he
    exact known_iff.mpr ⟨lr, hlr, hdefined e he lr hget⟩
  · intro hknown
    obtain ⟨hash', hfold⟩ := exists_foldlM_addLivesource hnodup
      (fun e _ => HashTable.get_new HashTable.zero_lt_509 e.1)
      (fun e he => (known_iff.mp (hknown e he)).imp fun _ h => h.1)
    refine ⟨hash', hfold, fun e he lr hget => ?_⟩
    obtain ⟨lr', hlr', hget'⟩ := exists_get_foldlM hfold he
    obtain ⟨lr'', hlr'', hdefined⟩ := known_iff.mp (hknown e he)
    obtain rfl := Option.some.inj (hget.symm.trans hget')
    obtain rfl := Option.some.inj (hlr'.symm.trans hlr'')
    exact hdefined

/-! ### A difference -/

variable {lrlist : LivesourcesRemote} {type : CString}

/-- A difference is refused, or applied with a livesource that has a meaning. -/
def DiffDefined (type mountpoint : CString) (res : Except ℕ LivesourcesRemote) : Prop :=
  (∀ status, res = .error status → status = 404 ∨ status = 503) ∧
    ∀ lrlist', res = .ok lrlist' → type = cstr "add" ∨ type = cstr "update" →
      ∀ lr, lrlist'.hash.get mountpoint = some lr → lr.Defined

theorem diffDefined_error {status : ℕ} (h : status = 404 ∨ status = 503) :
    DiffDefined type mountpoint (.error status) :=
  ⟨fun _ heq => Except.error.inj heq ▸ h, fun _ heq => by contradiction⟩

/-- The difference stores a livesource. -/
def Stores (lrlist : LivesourcesRemote) (type mountpoint : CString) : Prop :=
  (type = cstr "add" ∧ (lrlist.hash.get mountpoint).isNone = true) ∨
    (type = cstr "update" ∧ (lrlist.hash.get mountpoint).isSome = true)

/-- A difference that stores a livesource. -/
theorem applyDiff_of_stores (h : Stores lrlist type mountpoint) :
    (∀ lr, convertLivesource text mountpoint ls = some lr → ∃ lrlist',
      applyDiff text lrlist type mountpoint ls = some (.ok lrlist') ∧
        lrlist'.hash.get mountpoint = some lr) ∧
      (convertLivesource text mountpoint ls = none →
        applyDiff text lrlist type mountpoint ls = none) := by
  rcases h with ⟨rfl, hnone⟩ | ⟨rfl, hsome⟩
  · have hget := Option.isNone_iff_eq_none.mp hnone
    refine ⟨fun lr hlr => ?_, fun hlr => ?_⟩
    · obtain ⟨hash, hadd⟩ := HashTable.exists_add hget lr
      refine ⟨{ lrlist with hash := hash, serial := lrlist.serial + 1 }, ?_, ?_⟩
      · rw [applyDiff, if_pos rfl, hget, Option.isSome_none, if_neg Bool.false_ne_true, hlr]
        simp only [Option.bind_eq_bind, Option.bind_some, hadd]
        rfl
      · rw [HashTable.get_add hadd, if_pos rfl]
    · rw [applyDiff, if_pos rfl, hget, Option.isSome_none, if_neg Bool.false_ne_true, hlr]
      rfl
  · obtain ⟨lr₀, hget⟩ := Option.isSome_iff_exists.mp hsome
    have hadd : cstr "update" ≠ cstr "add" := by decide
    have hdel : cstr "update" ≠ cstr "del" := by decide
    refine ⟨fun lr hlr => ?_, fun hlr => ?_⟩
    · refine ⟨{ lrlist with
        hash := lrlist.hash.modify mountpoint fun _ => lr
        serial := lrlist.serial + 1 }, ?_, ?_⟩
      · rw [applyDiff, if_neg hadd, if_neg hdel, if_pos rfl, hget, Option.isNone_some,
          if_neg Bool.false_ne_true, hlr]
        rfl
      · rw [HashTable.get_modify, if_pos rfl, hget, Option.map_some]
    · rw [applyDiff, if_neg hadd, if_neg hdel, if_pos rfl, hget, Option.isNone_some,
        if_neg Bool.false_ne_true, hlr]
      rfl

/-- A difference that stores no livesource. -/
theorem applyDiff_of_not_stores (h : ¬Stores lrlist type mountpoint) :
    ∃ res, applyDiff text lrlist type mountpoint ls = some res ∧
      DiffDefined type mountpoint res := by
  rw [applyDiff]
  split
  · next hadd =>
    split
    · exact ⟨_, rfl, diffDefined_error (.inl rfl)⟩
    · next hsome => exact absurd (.inl ⟨hadd, by simpa using hsome⟩) h
  · next hadd =>
    split
    · next hdel =>
      split
      · exact ⟨_, rfl, diffDefined_error (.inr rfl)⟩
      · refine ⟨_, rfl, fun _ heq => by contradiction, fun _ _ htype => ?_⟩
        rcases htype with htype | htype
        · exact absurd htype hadd
        · exact absurd (hdel.symm.trans htype) (by decide)
    · next hdel =>
      split
      · next hupdate =>
        split
        · exact ⟨_, rfl, diffDefined_error (.inr rfl)⟩
        · next hnone =>
          refine absurd (.inr ⟨hupdate, Option.isSome_iff_ne_none.mpr ?_⟩) h
          exact fun heq => hnone (Option.isNone_iff_eq_none.mpr heq)
      · exact ⟨_, rfl, diffDefined_error (.inr rfl)⟩

/-- A difference that is refused is answered so. -/
theorem applyDiff_error {status : ℕ}
    (h : applyDiff text lrlist type mountpoint ls = some (.error status)) :
    status = 404 ∨ status = 503 := by
  by_cases hstores : Stores lrlist type mountpoint
  · obtain ⟨hsome, hnone⟩ := @applyDiff_of_stores text ls mountpoint lrlist type hstores
    cases hlr : convertLivesource text mountpoint ls with
    | none =>
      rw [hnone hlr] at h
      contradiction
    | some lr =>
      obtain ⟨lrlist', hok, -⟩ := hsome lr hlr
      have heq := Option.some.inj (h.symm.trans hok)
      contradiction
  · obtain ⟨res, hres, hdefined⟩ := @applyDiff_of_not_stores text ls mountpoint lrlist type hstores
    exact hdefined.1 status (Option.some.inj (hres.symm.trans h))

/-- A difference is refused, or applied with a meaning, if and only if a livesource that it stores
is known. -/
theorem applyDiff_defined_iff :
    (∃ res, applyDiff text lrlist type mountpoint ls = some res ∧
      DiffDefined type mountpoint res) ↔ (Stores lrlist type mountpoint → Known text ls) := by
  by_cases hstores : Stores lrlist type mountpoint
  · obtain ⟨hsome, hnone⟩ := @applyDiff_of_stores text ls mountpoint lrlist type hstores
    have htype : type = cstr "add" ∨ type = cstr "update" := hstores.imp And.left And.left
    constructor
    · rintro ⟨res, hres, hdefined⟩ -
      cases hlr : convertLivesource text mountpoint ls with
      | none =>
        rw [hnone hlr] at hres
        contradiction
      | some lr =>
        obtain ⟨lrlist', hok, hget⟩ := hsome lr hlr
        have heq := (Option.some.inj (hres.symm.trans hok))
        exact known_iff.mpr ⟨lr, hlr, hdefined.2 lrlist' heq htype lr hget⟩
    · intro hknown
      obtain ⟨lr, hlr, hdefined⟩ := known_iff.mp (hknown hstores)
      obtain ⟨lrlist', hok, hget⟩ := hsome lr hlr
      refine ⟨_, hok, fun _ heq => by contradiction, fun _ heq _ lr' hget' => ?_⟩
      obtain rfl := Except.ok.inj heq
      exact Option.some.inj (hget.symm.trans hget') ▸ hdefined
  · exact ⟨fun _ h => absurd h hstores, fun _ => applyDiff_of_not_stores hstores⟩

end LivesourcesRemote

/-! ### The message as a whole -/

namespace Livesources

open LivesourcesRemote

variable {text : Json → CString} {this r' : Livesources} {j : Json} {status : ℕ}

/-- The message makes a record for a mountpoint. -/
def Writes (text : Json → CString) (j : Json) (mountpoint : CString) : Prop :=
  ((j.objectGet (cstr "type")).getString text = some (cstr "fulltable") ∧
    ∃ fields, j.objectGet (cstr "livesources") = .object fields ∧
      mountpoint ∈ fields.map Prod.fst) ∨
  (((j.objectGet (cstr "type")).getString text = some (cstr "add") ∨
      (j.objectGet (cstr "type")).getString text = some (cstr "update")) ∧
    ((j.objectGet (cstr "livesource")).objectGet (cstr "mountpoint")).getString text =
      some mountpoint)

/-- What the message stores is one of the values defined. -/
def StoresDefined (text : Json → CString) (j : Json) (r' : Livesources) : Prop :=
  ∀ hostname lrlist mountpoint lr,
    (j.objectGet (cstr "hostname")).getString text = some hostname → Writes text j mountpoint →
      r'.remote.get hostname = some lrlist → lrlist.hash.get mountpoint = some lr → lr.Defined

/-- The message is answered, without a null string or a failed assertion. The remote tables are
unchanged if the answer is not 200, and what is stored is defined if it is. -/
def Handled (text : Json → CString) (this : Livesources) (j : Json) : Prop :=
  ∃ status r', this.updateExecute text j = some (status, r') ∧
    (status = 200 ∨ status = 404 ∨ status = 503) ∧
      (status ≠ 200 → r'.remote = this.remote) ∧ (status = 200 → StoresDefined text j r')

/-- A full table whose other fields are there has an array of endpoints, and if these are complete,
an object with known livesources. -/
def FulltableUnderstood (text : Json → CString) (j : Json) : Prop :=
  ((j.objectGet (cstr "start_date")).getString text).isSome = true →
    (j.objectGet (cstr "livesources")).isNull = false →
    (j.objectGet (cstr "serial")).isNull = false →
      (j.objectGet (cstr "endpoints")).isNull = false →
        ∃ endpoints, j.objectGet (cstr "endpoints") = .array endpoints ∧
          ((endpoints.mapM (endpointFromJson text)).isSome = true →
            ∃ fields, j.objectGet (cstr "livesources") = .object fields ∧
              ∀ e ∈ fields, Known text e.2)

/-- A difference to the table that the node has, with a livesource, names its mountpoint; and a
livesource that is stored is known. -/
def DiffUnderstood (text : Json → CString) (this : Livesources) (j : Json)
    (type hostname : CString) : Prop :=
  ∀ lrlist, this.remote.get hostname = some lrlist →
    (j.objectGet (cstr "start_date")).getString text = some lrlist.startDate →
      (j.objectGet (cstr "serial")).isNull = false →
        (j.objectGet (cstr "serial")).getUint64 = lrlist.serial → type ≠ cstr "checkserial" →
          (j.objectGet (cstr "livesource")).isNull = false →
            ∃ mountpoint, ((j.objectGet (cstr "livesource")).objectGet
                (cstr "mountpoint")).getString text = some mountpoint ∧
              (Stores lrlist type mountpoint → Known text (j.objectGet (cstr "livesource")))

/-- What is looked at in a message is there, with the types and the values expected. -/
def Understood (text : Json → CString) (this : Livesources) (j : Json) : Prop :=
  ∀ type hostname, (j.objectGet (cstr "type")).getString text = some type →
    (j.objectGet (cstr "hostname")).getString text = some hostname →
      (type = cstr "fulltable" → FulltableUnderstood text j) ∧
        (type ≠ cstr "fulltable" → DiffUnderstood text this j type hostname)

/-- A message that is refused changes nothing. -/
theorem handled_of_refused (h : this.updateExecute text j = some (status, this))
    (hstatus : status = 404 ∨ status = 503) : Handled text this j := by
  refine ⟨status, this, h, .inr hstatus, fun _ => rfl, fun h200 => ?_⟩
  omega

section Fulltable

variable {hostname : CString} (htype : (j.objectGet (cstr "type")).getString text =
    some (cstr "fulltable"))
  (hhost : (j.objectGet (cstr "hostname")).getString text = some hostname)

include htype hhost

theorem updateExecute_fulltable :
    this.updateExecute text j = (processFulltable text j hostname).map fun remote =>
      remote.elim (503, this) fun remote => (200, this.remoteReplace hostname (some remote)) := by
  rw [updateExecute, htype, hhost]
  dsimp only
  rw [if_pos rfl]
  congr 1
  funext remote
  cases remote <;> rfl

/-- Full tables. -/
theorem handled_iff_fulltableUnderstood (hparsed : j.Parsed) :
    Handled text this j ↔ FulltableUnderstood text j := by
  have hexecute := @updateExecute_fulltable text this j hostname htype hhost
  have hnotDiff (mountpoint : CString) (hwrites : Writes text j mountpoint) :
      ∃ fields, j.objectGet (cstr "livesources") = .object fields ∧
        mountpoint ∈ fields.map Prod.fst := by
    rcases hwrites with ⟨-, hfields⟩ | ⟨hadd | hupdate, -⟩
    · exact hfields
    · exact absurd (Option.some.inj (htype.symm.trans hadd)) (by decide)
    · exact absurd (Option.some.inj (htype.symm.trans hupdate)) (by decide)
  constructor
  · rintro ⟨status, r', hrun, -, -, hstores⟩ hdate hlist hserial hendpoints
    obtain ⟨startDate, hdate⟩ := Option.isSome_iff_exists.mp hdate
    rw [hexecute] at hrun
    obtain ⟨remote, hprocess, hremote⟩ := Option.map_eq_some_iff.mp hrun
    rw [processFulltable, hdate] at hprocess
    dsimp only at hprocess
    rw [hlist, hserial, hendpoints, if_neg (by decide)] at hprocess
    cases hj : j.objectGet (cstr "endpoints") with
    | array endpoints =>
      refine ⟨endpoints, rfl, fun hcomplete => ?_⟩
      obtain ⟨l, hl⟩ := Option.isSome_iff_exists.mp hcomplete
      rw [hj, endpointsFromJson, hl] at hprocess
      obtain ⟨fields, hfields, hprocess⟩ := Option.bind_eq_some_iff.mp hprocess
      obtain ⟨hash, hfold, hprocess⟩ := Option.bind_eq_some_iff.mp hprocess
      obtain rfl := Option.some.inj hprocess
      obtain ⟨rfl, rfl⟩ := Prod.mk.inj hremote
      have hobject : j.objectGet (cstr "livesources") = .object fields := by
        cases hls : j.objectGet (cstr "livesources") with
        | object fields' =>
          rw [hls, Json.iterFields] at hfields
          rw [Option.some.inj hfields]
        | _ =>
          rw [hls] at hfields
          contradiction
      refine ⟨fields, hobject, ?_⟩
      have hnodup := Json.Parsed.nodup (hobject ▸ hparsed.objectGet _)
      refine (foldlM_defined_iff hnodup).mp ⟨hash, hfold, fun e he lr hget => ?_⟩
      have hremote := get_remoteReplace this hostname (some ⟨hash,
        (j.objectGet (cstr "serial")).getUint64, startDate, hostname, l⟩) hostname
      rw [if_pos rfl] at hremote
      exact hstores rfl hostname _ e.1 lr hhost
        (.inl ⟨htype, fields, hobject, List.mem_map_of_mem he⟩) hremote hget
    | _ =>
      rw [hj, endpointsFromJson] at hprocess
      · contradiction
      · rintro l ⟨⟩
  · intro hunderstood
    have hrefused (hnone : processFulltable text j hostname = some none) : Handled text this j :=
      handled_of_refused (by rw [hexecute, hnone]; rfl) (.inr rfl)
    cases hdate : (j.objectGet (cstr "start_date")).getString text with
    | none => exact hrefused (by rw [processFulltable, hdate])
    | some startDate =>
      by_cases hnull : ((j.objectGet (cstr "livesources")).isNull ||
          (j.objectGet (cstr "serial")).isNull || (j.objectGet (cstr "endpoints")).isNull) = true
      · refine hrefused ?_
        rw [processFulltable, hdate]
        dsimp only
        rw [if_pos hnull]
      · obtain ⟨hother, hendpoints⟩ := Bool.or_eq_false_iff.mp (Bool.eq_false_iff.mpr hnull)
        obtain ⟨hlist, hserial⟩ := Bool.or_eq_false_iff.mp hother
        obtain ⟨endpoints, hj, hrest⟩ := hunderstood (by rw [hdate, Option.isSome_some]) hlist
          hserial hendpoints
        have hprocess : processFulltable text j hostname =
            (endpoints.mapM (endpointFromJson text)).elim (some none) fun endpoints => do
              let fields ← (j.objectGet (cstr "livesources")).iterFields
              let hash ← fields.foldlM (addLivesource text)
                (HashTable.new 509 HashTable.zero_lt_509)
              return some ⟨hash, (j.objectGet (cstr "serial")).getUint64, startDate, hostname,
                endpoints⟩ := by
          rw [processFulltable, hdate]
          dsimp only
          rw [if_neg hnull, hj, endpointsFromJson]
          cases endpoints.mapM (endpointFromJson text) <;> rfl
        cases hcomplete : endpoints.mapM (endpointFromJson text) with
        | none => exact hrefused (by rw [hprocess, hcomplete]; rfl)
        | some l =>
          obtain ⟨fields, hobject, hknown⟩ := hrest (by rw [hcomplete, Option.isSome_some])
          have hnodup := Json.Parsed.nodup (hobject ▸ hparsed.objectGet (cstr "livesources"))
          obtain ⟨hash, hfold, hdefined⟩ := (foldlM_defined_iff hnodup).mpr hknown
          rw [hcomplete, Option.elim_some, hobject, Json.iterFields, Option.bind_eq_bind,
            Option.bind_some, hfold] at hprocess
          refine ⟨200, _, by rw [hexecute, hprocess]; rfl, .inl rfl, fun hne => absurd rfl hne,
            fun _ => ?_⟩
          intro hostname' lrlist mountpoint lr hhost' hwrites hget hlr
          obtain rfl := Option.some.inj (hhost.symm.trans hhost')
          rw [get_remoteReplace, if_pos rfl] at hget
          obtain rfl := Option.some.inj hget
          obtain ⟨fields', hobject', hmem⟩ := hnotDiff mountpoint hwrites
          obtain rfl := Json.object.inj (hobject.symm.trans hobject')
          obtain ⟨e, he, rfl⟩ := List.mem_map.mp hmem
          exact hdefined e he lr hlr

end Fulltable

section Diff

variable {type hostname : CString} (htype : (j.objectGet (cstr "type")).getString text = some type)
  (hhost : (j.objectGet (cstr "hostname")).getString text = some hostname)
  (hdiff : type ≠ cstr "fulltable")

include htype hhost hdiff

theorem updateExecute_diff :
    this.updateExecute text j = this.updateExecuteDiff text j hostname := by
  rw [updateExecute, htype, hhost]
  dsimp only
  rw [if_neg hdiff]

omit hhost in
/-- The mountpoint of a difference that makes a record. -/
theorem writes_diff {mountpoint : CString} (hwrites : Writes text j mountpoint) :
    (type = cstr "add" ∨ type = cstr "update") ∧
      ((j.objectGet (cstr "livesource")).objectGet (cstr "mountpoint")).getString text =
        some mountpoint := by
  rcases hwrites with ⟨hfull, -⟩ | ⟨hadd, hmountpoint⟩
  · exact absurd (Option.some.inj (htype.symm.trans hfull)) hdiff
  · rw [htype] at hadd
    exact ⟨hadd.imp Option.some.inj Option.some.inj, hmountpoint⟩

/-- A difference to the table that the node has, with a livesource that names its mountpoint. -/
theorem handled_iff_diffDefined {lrlist : LivesourcesRemote} {mountpoint : CString}
    (hget : this.remote.get hostname = some lrlist)
    (hdate : (j.objectGet (cstr "start_date")).getString text = some lrlist.startDate)
    (hnull : (j.objectGet (cstr "serial")).isNull = false)
    (hserial : (j.objectGet (cstr "serial")).getUint64 = lrlist.serial)
    (hcheck : type ≠ cstr "checkserial") (hls : (j.objectGet (cstr "livesource")).isNull = false)
    (hmountpoint : ((j.objectGet (cstr "livesource")).objectGet
      (cstr "mountpoint")).getString text = some mountpoint) :
    Handled text this j ↔ ∃ res, lrlist.applyDiff text type mountpoint
      (j.objectGet (cstr "livesource")) = some res ∧ DiffDefined type mountpoint res := by
  have hrun : this.updateExecute text j = (lrlist.applyDiff text type mountpoint
      (j.objectGet (cstr "livesource"))).bind fun res => some (Except.casesOn res
        (fun status => (status, this)) fun lrlist' =>
          (200, { this with remote := this.remote.modify hostname fun _ => lrlist' })) := by
    rw [updateExecute_diff htype hhost hdiff, updateExecuteDiff, htype, hdate]
    dsimp only
    rw [hnull, if_neg Bool.false_ne_true, hget]
    dsimp only
    rw [if_neg (not_not.mpr rfl), if_neg (not_not.mpr hserial), if_neg hcheck, hls,
      if_neg Bool.false_ne_true, hmountpoint]
    simp only [Option.bind_eq_bind, Option.bind_some]
    congr 1
    funext res
    cases res <;> rfl
  rw [Handled, hrun]
  cases hres : lrlist.applyDiff text type mountpoint (j.objectGet (cstr "livesource")) with
  | none =>
    refine ⟨?_, ?_⟩
    · rintro ⟨status, r', hnone, -⟩
      contradiction
    · rintro ⟨res, hnone, -⟩
      contradiction
  | some res =>
    rw [Option.bind_some]
    cases res with
    | error status =>
      constructor
      · rintro ⟨status', r', hrun, hstatus, -, hstores⟩
        obtain ⟨rfl, rfl⟩ := Prod.mk.inj (Option.some.inj hrun)
        refine ⟨_, rfl, fun status' heq => ?_, fun _ heq => by contradiction⟩
        obtain rfl := Except.error.inj heq
        exact applyDiff_error hres
      · rintro ⟨res, hres, hdefined⟩
        obtain rfl := Option.some.inj hres
        refine ⟨status, this, rfl, .inr (hdefined.1 status rfl), fun _ => rfl, fun h200 => ?_⟩
        have hstatus := hdefined.1 status rfl
        omega
    | ok lrlist' =>
      have hremote : (this.remote.modify hostname fun _ => lrlist').get hostname =
          some lrlist' := by
        rw [HashTable.get_modify, if_pos rfl, hget, Option.map_some]
      constructor
      · rintro ⟨status, r', hrun, -, -, hstores⟩
        obtain ⟨rfl, rfl⟩ := Prod.mk.inj (Option.some.inj hrun)
        refine ⟨_, rfl, fun _ heq => by contradiction, fun lrlist'' heq hadd lr hlr => ?_⟩
        obtain rfl := Except.ok.inj heq
        refine hstores rfl hostname lrlist' mountpoint lr hhost (.inr ⟨?_, hmountpoint⟩) hremote hlr
        rw [htype]
        exact hadd.imp (congrArg some) (congrArg some)
      · rintro ⟨res, hres, hdefined⟩
        obtain rfl := Option.some.inj hres
        refine ⟨200, _, rfl, .inl rfl, fun hne => absurd rfl hne, fun _ => ?_⟩
        intro hostname' lrlist'' mountpoint' lr hhost' hwrites hget' hlr
        obtain rfl := Option.some.inj (hhost.symm.trans hhost')
        obtain rfl := Option.some.inj (hremote.symm.trans hget')
        obtain ⟨hadd, hmountpoint'⟩ := writes_diff htype hdiff hwrites
        obtain rfl := Option.some.inj (hmountpoint.symm.trans hmountpoint')
        exact hdefined.2 _ rfl hadd lr hlr

/-- Differences. -/
theorem handled_iff_diffUnderstood :
    Handled text this j ↔ DiffUnderstood text this j type hostname := by
  have hexecute := @updateExecute_diff text this j type hostname htype hhost hdiff
  constructor
  · intro hhandled lrlist hget hdate hnull hserial hcheck hls
    cases hmountpoint : ((j.objectGet (cstr "livesource")).objectGet
        (cstr "mountpoint")).getString text with
    | some mountpoint =>
      refine ⟨mountpoint, rfl, applyDiff_defined_iff.mp ?_⟩
      exact (handled_iff_diffDefined htype hhost hdiff hget hdate hnull hserial hcheck hls
        hmountpoint).mp hhandled
    | none =>
      obtain ⟨status, r', hrun, -⟩ := hhandled
      rw [hexecute, updateExecuteDiff, htype, hdate] at hrun
      dsimp only at hrun
      rw [hnull, if_neg Bool.false_ne_true, hget] at hrun
      dsimp only at hrun
      rw [if_neg (not_not.mpr rfl), if_neg (not_not.mpr hserial), if_neg hcheck, hls,
        if_neg Bool.false_ne_true, hmountpoint] at hrun
      contradiction
  · intro hunderstood
    have hrun := hexecute
    rw [updateExecuteDiff, htype] at hrun
    cases hdate : (j.objectGet (cstr "start_date")).getString text with
    | none => exact handled_of_refused (by rw [hrun, hdate]) (.inr rfl)
    | some startDate =>
      rw [hdate] at hrun
      dsimp only at hrun
      cases hnull : (j.objectGet (cstr "serial")).isNull with
      | true => exact handled_of_refused (by rw [hrun, hnull]; rfl) (.inr rfl)
      | false =>
        cases hget : this.remote.get hostname with
        | none => exact handled_of_refused (by rw [hrun, hnull, hget]; rfl) (.inl rfl)
        | some lrlist =>
          rw [hnull, if_neg Bool.false_ne_true, hget] at hrun
          dsimp only at hrun
          by_cases hsame : startDate = lrlist.startDate
          · rw [if_neg (not_not.mpr hsame)] at hrun
            by_cases hserial : (j.objectGet (cstr "serial")).getUint64 = lrlist.serial
            · rw [if_neg (not_not.mpr hserial)] at hrun
              by_cases hcheck : type = cstr "checkserial"
              · rw [if_pos hcheck] at hrun
                refine ⟨200, this, hrun, .inl rfl, fun hne => absurd rfl hne,
                  fun _ => ?_⟩
                intro _ _ mountpoint _ _ hwrites
                have hadd := (writes_diff htype hdiff hwrites).1
                rw [hcheck] at hadd
                exact absurd hadd (by decide)
              · rw [if_neg hcheck] at hrun
                cases hls : (j.objectGet (cstr "livesource")).isNull with
                | true => exact handled_of_refused (by rw [hrun, hls]; rfl) (.inl rfl)
                | false =>
                  rw [hsame] at hdate
                  obtain ⟨mountpoint, hmountpoint, hknown⟩ := hunderstood lrlist hget hdate hnull
                    hserial hcheck hls
                  exact (handled_iff_diffDefined htype hhost hdiff hget hdate hnull hserial hcheck
                    hls hmountpoint).mpr (applyDiff_defined_iff.mpr hknown)
            · rw [if_pos hserial] at hrun
              exact handled_of_refused hrun (.inl rfl)
          · rw [if_pos hsame] at hrun
            exact handled_of_refused hrun (.inl rfl)

end Diff

/-- **The messages that are handled** are those of which everything that is looked at is there, with
the type and the value expected. -/
theorem handled_iff_understood (hparsed : j.Parsed) :
    Handled text this j ↔ Understood text this j := by
  have hrefused (hrun : this.updateExecute text j = some (503, this)) : Handled text this j :=
    handled_of_refused hrun (.inr rfl)
  cases htype : (j.objectGet (cstr "type")).getString text with
  | none =>
    refine ⟨fun _ type hostname htype' => ?_, fun _ => hrefused (by rw [updateExecute, htype])⟩
    exact absurd (htype'.symm.trans htype) (Option.some_ne_none type)
  | some type =>
    cases hhost : (j.objectGet (cstr "hostname")).getString text with
    | none =>
      refine ⟨fun _ type hostname _ hhost' => ?_,
        fun _ => hrefused (by rw [updateExecute, htype, hhost])⟩
      exact absurd (hhost'.symm.trans hhost) (Option.some_ne_none hostname)
    | some hostname =>
      by_cases hfull : type = cstr "fulltable"
      · subst hfull
        rw [handled_iff_fulltableUnderstood htype hhost hparsed]
        constructor
        · intro hunderstood type hostname' htype' _
          obtain rfl := Option.some.inj (htype.symm.trans htype')
          exact ⟨fun _ => hunderstood, fun hne => absurd rfl hne⟩
        · exact fun hunderstood => (hunderstood _ _ htype hhost).1 rfl
      · rw [handled_iff_diffUnderstood htype hhost hfull]
        constructor
        · intro hunderstood type' hostname' htype' hhost'
          obtain rfl := Option.some.inj (htype.symm.trans htype')
          obtain rfl := Option.some.inj (hhost.symm.trans hhost')
          exact ⟨fun heq => absurd heq hfull, fun _ => hunderstood⟩
        · exact fun hunderstood => (hunderstood _ _ htype hhost).2 hfull

/-- A full table with one livesource, in some state. -/
def oneLivesource (state : List (CString × Json)) : Json :=
  .object [(cstr "type", .string (cstr "fulltable")), (cstr "hostname", .string (cstr "far")),
    (cstr "start_date", .string (cstr "today")), (cstr "serial", .int 1),
    (cstr "endpoints", .array []),
    (cstr "livesources", .object [(cstr "BASE",
      .object (state ++ [(cstr "type", Json.string (cstr "DIRECT"))]))])]

/-- The keys are distinct. -/
theorem parsed_oneLivesource {state : List (CString × Json)}
    (hkeys : ((state ++ [(cstr "type", Json.string (cstr "DIRECT"))]).map Prod.fst).Nodup)
    (h : ∀ e ∈ state, e.2.Parsed) : (oneLivesource state).Parsed := by
  have hfields : [cstr "type", cstr "hostname", cstr "start_date", cstr "serial", cstr "endpoints",
      cstr "livesources"].Nodup := by decide
  refine .object hfields fun e he => ?_
  simp only [List.mem_cons, List.not_mem_nil, or_false] at he
  rcases he with rfl | rfl | rfl | rfl | rfl | rfl
  · exact .string _
  · exact .string _
  · exact .string _
  · exact .int _
  · exact .array fun _ hmem => absurd hmem List.not_mem_nil
  · refine .object (List.nodup_singleton _) fun e he => ?_
    obtain rfl := List.mem_singleton.mp he
    refine .object hkeys fun e he => ?_
    rcases List.mem_append.mp he with he | he
    · exact h e he
    · obtain rfl := List.mem_singleton.mp he
      exact .string _

/-- A livesource with a state and a type. -/
theorem handled_iff_understood_running :
    Handled (fun _ => []) (new (cstr "near") (cstr "today"))
      (oneLivesource [(cstr "state", .string (cstr "RUNNING"))]) := by
  have hparsed : (oneLivesource [(cstr "state", .string (cstr "RUNNING"))]).Parsed := by
    refine parsed_oneLivesource (by decide) fun e he => ?_
    obtain rfl := List.mem_singleton.mp he
    exact .string _
  refine (handled_iff_understood hparsed).mpr fun type hostname htype _ => ?_
  have hfull : cstr "fulltable" = type := Option.some.inj htype
  refine ⟨fun _ _ _ _ _ => ⟨[], rfl, fun _ => ⟨_, rfl, fun e he => ?_⟩⟩,
    fun hne => absurd hfull.symm hne⟩
  obtain rfl := List.mem_singleton.mp he
  exact ⟨by decide, by decide⟩

/-- A livesource without a state: a null pointer is handed to `strcmp`. -/
theorem not_handled_stateless :
    ¬ ∀ (text : Json → CString) (this : Livesources) (j : Json), j.Parsed →
      Handled text this j := by
  intro hall
  have hparsed : (oneLivesource []).Parsed :=
    parsed_oneLivesource (by decide) fun _ he => absurd he List.not_mem_nil
  obtain ⟨status, r', hrun, -⟩ := hall (fun _ => []) (new (cstr "near") (cstr "today")) _ hparsed
  have hnone : (updateExecute (fun _ => []) (new (cstr "near") (cstr "today"))
      (oneLivesource [])).isNone = true := by
    decide +kernel
  rw [hrun, Option.isNone_some] at hnone
  exact Bool.false_ne_true hnone

end Livesources

end ChilopodCaster
