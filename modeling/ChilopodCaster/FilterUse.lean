import Mathlib.Data.List.DropRight
import ChilopodCaster.Hash
import ChilopodCaster.ReloadOrder
import ChilopodCaster.Rtcm.Filter

/-!
# Filters across reloads

A session that asks for a mountpoint with a filter gets the flag `use_rtcm_filter`, which is never
cleared. The filter itself is not kept in the session: it is read from the configuration the session
has when a packet is sent, and that configuration may be a later one.

## Main definitions

* `casterReloadRtcmFilters` — the filter and the dictionary of a configuration, from its section
* `FilterUse`, `FilterUse.step` — the reloads and sessions of `Reloads`, with requests and packets
* `FilterUse.calls` — the calls of `rtcm_filter_pass` and `rtcm_filter_check_mountpoint` in a step
* `FilterUse.KeepsFilter` — a session with the flag moves to a configuration that has a filter

## Main results

* `FilterUse.reachable_given` — in a run in which all sessions keep their filters, each call gets
  the filter or the dictionary of the current configuration of its session
* `FilterUse.not_given_filterRemoved` — a run with one reload that calls `rtcm_filter_pass` with
  `NULL`
-/

namespace ChilopodCaster

open Rtcm

/-! ### The section `rtcm_filter` -/

namespace Rtcm

/-- `sscanf` with the format `%d`, and `rtcm_typeset_set`. -/
def Typeset.setStr (t : Typeset) (typestr : CString) : Option Typeset :=
  (sscanfD typestr).bind fun type =>
    if type.toInt < 0 then none else t.set type.toInt.toNat

/-- The loop of `rtcm_typeset_parse`: `typestr` has room for four characters, and those beyond are
dropped. -/
def Typeset.parseLoop (t : Typeset) (typestr : CString) : CString → Option Typeset
  | [] => t.setStr typestr
  | c :: typelist =>
    if c = 44 then (t.setStr typestr).bind fun t => t.parseLoop [] typelist
    else t.parseLoop (if typestr.length < 4 then typestr ++ [c] else typestr) typelist

/-- `rtcm_typeset_parse`. -/
def Typeset.parse (typelist : CString) : Option Typeset :=
  if typelist = [] then some Typeset.init else Typeset.init.parseLoop [] typelist

/-- `rtcm_filter_new`. -/
def rtcmFilterNew (passList : CString) (convertList : Option CString) (conversion : Conversion) :
    Option Filter := do
  let passes ← Typeset.parse passList
  let converts ← (convertList.map Typeset.parse).getD (some Typeset.init)
  return ⟨passes, converts, conversion⟩

theorem zero_lt_5 : 0 < 5 := Nat.succ_pos 4

/-- The loop of `rtcm_filter_dict_parse`, for the text up to the next comma. A key that is there
already is ignored. -/
def filterDictKey (h : HashTable Unit) (text : CString) : Option (HashTable Unit) :=
  let key := (text.dropWhile isspace).rdropWhile isspace
  if key = [] then none else some ((h.add key ()).getD h)

/-- `rtcm_filter_dict_parse`. The loop ends after a comma that ends the text. -/
def rtcmFilterDictParse (applyList : CString) : Option (HashTable Unit) :=
  let texts := applyList.splitOnP (· = 44)
  let texts := if 1 < texts.length ∧ texts.getLast? = some [] then texts.dropLast else texts
  texts.foldlM filterDictKey (HashTable.new 5 zero_lt_5)

/-- `struct config_rtcm_filter`. -/
structure ConfigRtcmFilter where
  /-- the field `apply` -/
  applyList : CString
  /-- the field `pass` -/
  passList : CString
  /-- the field `convert`: the types, and the conversion to apply -/
  convert : List (CString × Conversion)
  deriving DecidableEq

/-- The fields of `struct caster_dynconfig` that are about filters. -/
structure FilterDynconfig where
  rtcmFilter : Option Filter
  rtcmFilterDict : Option (HashTable Unit)

/-- `caster_reload_rtcm_filters`, on the fields that `caster_dynconfig_new` has set to `NULL`. -/
def casterReloadRtcmFilters (rtcmFilter : List ConfigRtcmFilter) : FilterDynconfig × ℤ :=
  match rtcmFilter with
  | [] => (⟨none, none⟩, 0)
  | [entry] =>
    let dict : HashTable Unit := HashTable.new 5 zero_lt_5
    match rtcmFilterNew entry.passList (entry.convert.head?.map Prod.fst)
        ((entry.convert.head?.map Prod.snd).getD .msm7To3) with
    | none => (⟨none, some dict⟩, -1)
    | some filter =>
      match rtcmFilterDictParse entry.applyList with
      | none => (⟨none, some dict⟩, -1)
      | some h =>
        -- `hash_table_update`
        let dict := h.elements.foldl (fun dict e => (dict.add e.1 e.2).getD dict) dict
        (⟨some filter, some dict⟩, 0)
  | _ => (⟨none, none⟩, -1)

/-- `rtcm_filter_check_mountpoint`. -/
def rtcmFilterCheckMountpoint (dict : HashTable Unit) (mountpoint : CString) : Bool :=
  (dict.get mountpoint).isSome

/-- A configuration with a filter has a dictionary. -/
theorem isSome_rtcmFilterDict {rtcmFilter : List ConfigRtcmFilter}
    (h : (casterReloadRtcmFilters rtcmFilter).1.rtcmFilter.isSome) :
    (casterReloadRtcmFilters rtcmFilter).1.rtcmFilterDict.isSome := by
  rcases rtcmFilter with _ | ⟨entry, _ | ⟨entry', rest⟩⟩
  · contradiction
  · simp only [casterReloadRtcmFilters] at h ⊢
    cases rtcmFilterNew entry.passList (entry.convert.head?.map Prod.fst)
        ((entry.convert.head?.map Prod.snd).getD .msm7To3) with
    | none => rfl
    | some filter =>
      cases rtcmFilterDictParse entry.applyList with
      | none => rfl
      | some _ => rfl
  · contradiction

end Rtcm

/-! ### Sessions and their flags -/

/-- The dynamic part of a configuration. -/
def GenConfig.dyn (this : GenConfig (List ConfigRtcmFilter)) : FilterDynconfig :=
  (casterReloadRtcmFilters this.content).1

/-- The reloads, and the field `use_rtcm_filter` of each session. -/
structure FilterUse (C S : Type) where
  reloads : Reloads C S (List ConfigRtcmFilter)
  useRtcmFilter : S → Bool

inductive FilterStep (C S : Type)
  | reload (l : ReloadStep C S (List ConfigRtcmFilter))
  /-- `ntripsrv_readcb` comes to the mountpoint in a request. -/
  | request (st : S) (mountpoint : CString)
  /-- `livesource_send_subscribers` comes to the session, which is live, not backlogged and not
  waiting for a position in vain. -/
  | send (st : S)
  deriving DecidableEq

/-- A call, with the pointer it gets. -/
inductive FilterCall
  | rtcmFilterPass (this : Option Filter)
  | rtcmFilterCheckMountpoint (dict : Option (HashTable Unit))

/-- The pointer is not `NULL`, and is that of the configuration. -/
def FilterCall.Given (dyn : FilterDynconfig) : FilterCall → Prop
  | .rtcmFilterPass this => this.isSome ∧ this = dyn.rtcmFilter
  | .rtcmFilterCheckMountpoint dict => dict.isSome ∧ dict = dyn.rtcmFilterDict

namespace FilterUse

variable {C S : Type} [DecidableEq C] [DecidableEq S]

/-- After `caster_load` at startup. -/
def new (file : Option (List ConfigRtcmFilter)) (content : List ConfigRtcmFilter) :
    FilterUse C S where
  reloads := Reloads.new file content
  useRtcmFilter := fun _ => false

/-- The dynamic configuration that `ntrip_refresh_config` gives the session. -/
def refreshed (this : FilterUse C S) (st : S) : Option FilterDynconfig :=
  (this.reloads.sessions st).map fun u => (u.ntripRefreshConfig this.reloads.config).config.dyn

/-- The test in `ntripsrv_readcb`, on the configuration that has just been refreshed. -/
def filtersMountpoint (dyn : FilterDynconfig) (mountpoint : CString) : Bool :=
  dyn.rtcmFilter.isSome && dyn.rtcmFilterDict.any fun dict =>
    rtcmFilterCheckMountpoint dict mountpoint

/-- `ntrip_new` clears the flag. -/
def flagsAfter (useRtcmFilter : S → Bool) :
    ReloadStep C S (List ConfigRtcmFilter) → S → Bool
  | .ntripNew st => Function.update useRtcmFilter st false
  | .ntripNewWith _ st => Function.update useRtcmFilter st false
  | _ => useRtcmFilter

def step (this : FilterUse C S) : FilterStep C S → Option (FilterUse C S)
  | .reload l => (this.reloads.step l).map fun reloads =>
      ⟨reloads, flagsAfter this.useRtcmFilter l⟩
  | .request st mountpoint => (this.reloads.step (.refresh st)).map fun reloads =>
      ⟨reloads, if (this.refreshed st).any (filtersMountpoint · mountpoint) then
        Function.update this.useRtcmFilter st true else this.useRtcmFilter⟩
  | .send st => if (this.reloads.sessions st).isSome then some this else none

/-- The calls that a step makes. A request looks into the dictionary only if there is a filter. -/
def calls (this : FilterUse C S) : FilterStep C S → List (S × FilterCall)
  | .reload _ => []
  | .request st _ => (this.refreshed st).toList.filterMap fun dyn =>
      if dyn.rtcmFilter.isSome then some (st, .rtcmFilterCheckMountpoint dyn.rtcmFilterDict)
      else none
  | .send st => (this.reloads.sessions st).toList.filterMap fun u =>
      if this.useRtcmFilter st then some (st, .rtcmFilterPass u.config.dyn.rtcmFilter) else none

/-- Each call that a step makes from here is given the pointer of the configuration that its
session has then. -/
def CallsGiven (this : FilterUse C S) : Prop :=
  ∀ l that, this.step l = some that → ∀ st call, (st, call) ∈ this.calls l →
    ∃ u, that.reloads.sessions st = some u ∧ call.Given u.config.dyn

/-- A session with the flag is refreshed to a configuration that has a filter. -/
def KeepsFilter (this : FilterUse C S) : FilterStep C S → Prop
  | .reload (.refresh st) => this.useRtcmFilter st → (this.refreshed st).all (·.rtcmFilter.isSome)
  | .request st _ => this.useRtcmFilter st → (this.refreshed st).all (·.rtcmFilter.isSome)
  | _ => True

def Initial (this : FilterUse C S) : Prop := ∃ file content, this = new file content

/-! ### Runs -/

/-- What a step of the reloads does to the configuration of a session. -/
theorem sessions_step {this that : Reloads C S (List ConfigRtcmFilter)}
    {l : ReloadStep C S (List ConfigRtcmFilter)} (h : this.step l = some that) {st : S}
    {u' : ConfigUse (List ConfigRtcmFilter)} (hu' : that.sessions st = some u') :
    (∃ u, this.sessions st = some u ∧ u'.config = u.config) ∨
      (l = .refresh st ∧ ∃ u, this.sessions st = some u ∧
        u' = u.ntripRefreshConfig this.config) ∨
      l = .ntripNew st ∨ ∃ c, l = .ntripNewWith c st := by
  have hsame : that.sessions = this.sessions →
      ∃ u, this.sessions st = some u ∧ u'.config = u.config := by
    intro hsessions
    exact ⟨u', by rw [← hsessions, hu'], rfl⟩
  have huse : ∀ {st' : S} {v : ConfigUse (List ConfigRtcmFilter)}, that = this.use st' v →
      st = st' ∧ u' = v ∨ ∃ u, this.sessions st = some u ∧ u'.config = u.config := by
    rintro st' v rfl
    dsimp only [Reloads.use] at hu'
    by_cases hst : st = st'
    · subst hst
      rw [Function.update_self] at hu'
      exact .inl ⟨rfl, (Option.some.inj hu').symm⟩
    · rw [Function.update_of_ne hst] at hu'
      exact .inr ⟨u', hu', rfl⟩
  cases l with
  | edit file =>
    obtain rfl := Option.some.inj h
    exact .inl (hsame rfl)
  | draw c =>
    simp only [Reloads.step] at h
    split at h
    · obtain rfl := Option.some.inj h
      exact .inl (hsame rfl)
    · contradiction
  | parse c =>
    simp only [Reloads.step] at h
    split at h
    · obtain rfl := Option.some.inj h
      exact .inl (hsame rfl)
    · obtain rfl := Option.some.inj h
      exact .inl (hsame rfl)
    · contradiction
  | lock c =>
    simp only [Reloads.step] at h
    split at h
    · obtain rfl := Option.some.inj h
      exact .inl (hsame rfl)
    · obtain rfl := Option.some.inj h
      exact .inl (hsame rfl)
    · contradiction
  | store c =>
    simp only [Reloads.step] at h
    split at h
    · obtain rfl := Option.some.inj h
      exact .inl (hsame rfl)
    · contradiction
  | unlock c =>
    simp only [Reloads.step] at h
    split at h
    · obtain rfl := Option.some.inj h
      exact .inl (hsame rfl)
    · contradiction
  | getref =>
    obtain rfl := Option.some.inj h
    exact .inl (hsame rfl)
  | ntripNew st' =>
    simp only [Reloads.step] at h
    split at h
    · rcases huse (Option.some.inj h).symm with ⟨rfl, -⟩ | hkept
      · exact .inr (.inr (.inl rfl))
      · exact .inl hkept
    · contradiction
  | ntripNewWith c st' =>
    simp only [Reloads.step] at h
    split at h
    · rcases huse (Option.some.inj h).symm with ⟨rfl, -⟩ | hkept
      · exact .inr (.inr (.inr ⟨c, rfl⟩))
      · exact .inl hkept
    · contradiction
  | setTmp st' k =>
    simp only [Reloads.step] at h
    split at h
    · next u ref hu hk =>
      rcases huse (Option.some.inj h).symm with ⟨rfl, rfl⟩ | hkept
      · exact .inl ⟨u, hu, rfl⟩
      · exact .inl hkept
    · contradiction
  | refresh st' =>
    simp only [Reloads.step] at h
    split at h
    · next u hu =>
      rcases huse (Option.some.inj h).symm with ⟨rfl, rfl⟩ | hkept
      · exact .inr (.inl ⟨rfl, u, hu, rfl⟩)
      · exact .inl hkept
    · contradiction
  | clearTmp st' =>
    simp only [Reloads.step] at h
    split at h
    · next u hu =>
      rcases huse (Option.some.inj h).symm with ⟨rfl, rfl⟩ | hkept
      · exact .inl ⟨u, hu, rfl⟩
      · exact .inl hkept
    · contradiction

/-- A session with the flag has a configuration with a filter. -/
def Flagged (this : FilterUse C S) : Prop :=
  ∀ st u, this.reloads.sessions st = some u → this.useRtcmFilter st →
    u.config.dyn.rtcmFilter.isSome

variable {this that : FilterUse C S}

/-- A session that is refreshed keeps a filter, if it is to. -/
theorem Flagged.reload (h : this.Flagged) {l : ReloadStep C S (List ConfigRtcmFilter)}
    {reloads : Reloads C S (List ConfigRtcmFilter)} (hstep : this.reloads.step l = some reloads)
    (hkeeps : ∀ st, l = .refresh st → this.useRtcmFilter st →
      (this.refreshed st).all (·.rtcmFilter.isSome)) :
    (⟨reloads, flagsAfter this.useRtcmFilter l⟩ : FilterUse C S).Flagged := by
  intro st u' hu' hflag
  rcases sessions_step hstep hu' with ⟨u, hu, hconfig⟩ | ⟨rfl, u, hu, rfl⟩ | rfl | ⟨c, rfl⟩
  · rw [hconfig]
    refine h st u hu ?_
    cases l with
    | ntripNew st' =>
      by_cases hst : st = st'
      · subst hst
        exact absurd hflag (by simp [flagsAfter])
      · simpa [flagsAfter, hst] using hflag
    | ntripNewWith c st' =>
      by_cases hst : st = st'
      · subst hst
        exact absurd hflag (by simp [flagsAfter])
      · simpa [flagsAfter, hst] using hflag
    | _ => exact hflag
  · have hall := hkeeps st rfl hflag
    rw [refreshed, hu] at hall
    exact hall
  · exact absurd hflag (by simp [flagsAfter])
  · exact absurd hflag (by simp [flagsAfter])

/-- The session asks under the configuration it has just been refreshed to. -/
theorem sessions_refresh {this that : Reloads C S (List ConfigRtcmFilter)} {st : S}
    (h : this.step (.refresh st) = some that) :
    ∃ u, this.sessions st = some u ∧ that.sessions st =
      some (u.ntripRefreshConfig this.config) := by
  simp only [Reloads.step] at h
  split at h
  · next u hu =>
    obtain rfl := Option.some.inj h
    exact ⟨u, hu, Function.update_self _ _ _⟩
  · contradiction

theorem Flagged.step (h : this.Flagged) {l : FilterStep C S} (hkeeps : this.KeepsFilter l)
    (hstep : this.step l = some that) : that.Flagged := by
  cases l with
  | reload l =>
    obtain ⟨reloads, hreloads, rfl⟩ := Option.map_eq_some_iff.mp hstep
    refine h.reload hreloads ?_
    rintro st rfl
    exact hkeeps
  | request st mountpoint =>
    obtain ⟨reloads, hreloads, rfl⟩ := Option.map_eq_some_iff.mp hstep
    have hkept : (⟨reloads, this.useRtcmFilter⟩ : FilterUse C S).Flagged := by
      refine h.reload hreloads ?_
      intro st' hst'
      obtain rfl := ReloadStep.refresh.inj hst'
      exact hkeeps
    split
    · next hfilters =>
      obtain ⟨u, hu, hthat⟩ := sessions_refresh hreloads
      intro st' u' hu' hflag
      by_cases hst : st' = st
      · -- the flag is set under a configuration with a filter
        subst hst
        obtain rfl := Option.some.inj (hthat.symm.trans hu')
        rw [refreshed, hu] at hfilters
        exact (Bool.and_eq_true_iff.mp hfilters).1
      · exact hkept st' u' hu' (by simpa [hst] using hflag)
    · exact hkept
  | send st =>
    simp only [FilterUse.step] at hstep
    split at hstep
    · exact Option.some.inj hstep ▸ h
    · contradiction

/-- The calls of one step. -/
theorem Flagged.callsGiven (h : this.Flagged) : this.CallsGiven := by
  intro l that hstep st call hcall
  cases l with
  | reload l => contradiction
  | request st' mountpoint =>
    obtain ⟨reloads, hreloads, rfl⟩ := Option.map_eq_some_iff.mp hstep
    obtain ⟨u, hu, hthat⟩ := sessions_refresh hreloads
    obtain ⟨dyn, hdyn, hcall⟩ := List.mem_filterMap.mp hcall
    rw [refreshed, hu, Option.map_some, Option.toList_some, List.mem_singleton] at hdyn
    subst hdyn
    split at hcall
    · next hfilter =>
      obtain ⟨rfl, rfl⟩ := Prod.mk.inj (Option.some.inj hcall)
      exact ⟨_, hthat, isSome_rtcmFilterDict hfilter, rfl⟩
    · contradiction
  | send st' =>
    simp only [FilterUse.step] at hstep
    split at hstep
    · obtain rfl := Option.some.inj hstep
      obtain ⟨u, hu, hcall⟩ := List.mem_filterMap.mp hcall
      split at hcall
      · next hflag =>
        obtain ⟨rfl, rfl⟩ := Prod.mk.inj (Option.some.inj hcall)
        have hu' := Option.mem_toList.mp hu
        exact ⟨u, hu', h _ u hu' hflag, rfl⟩
      · contradiction
    · contradiction

/-- **Filtering has a filter, as long as no session with the flag moves to a configuration without
one.** In every state that such a run reaches, every step calls `rtcm_filter_pass` and
`rtcm_filter_check_mountpoint` with the filter and the dictionary, which are there, of the
configuration of the session. -/
theorem reachable_given (h : Transition.Reachable Initial KeepsFilter step this) :
    this.CallsGiven := by
  refine Flagged.callsGiven (h.invariant ?_ ?_)
  · rintro s ⟨file, content, rfl⟩ st u hu
    contradiction
  · intro s l s' hs hkeeps hstep
    exact hs.step hkeeps hstep

instance (this : FilterUse C S) (l : FilterStep C S) : Decidable (this.KeepsFilter l) :=
  match l with
  | .reload (.refresh _) => inferInstanceAs (Decidable (_ → _))
  | .request _ _ => inferInstanceAs (Decidable (_ → _))
  | .reload (.edit _) | .reload (.draw _) | .reload (.parse _) | .reload (.lock _)
  | .reload (.store _) | .reload (.unlock _) | .reload .getref | .reload (.ntripNew _)
  | .reload (.ntripNewWith _ _) | .reload (.setTmp _ _) | .reload (.clearTmp _) | .send _ =>
    inferInstanceAs (Decidable True)

/-- A filter for one mountpoint. -/
def positionsOnly : ConfigRtcmFilter := ⟨cstr "BASE", cstr "1005,1006", []⟩

/-- A session asks for the mountpoint, the file is changed to `file` and reloaded, and the session
is refreshed. -/
def reloadedAfterRequest (file : List ConfigRtcmFilter) : List (FilterStep ℕ ℕ) :=
  [.reload (.ntripNew 0), .request 0 (cstr "BASE"), .reload (.edit (some file)),
    .reload (.draw 0), .reload (.parse 0), .reload (.lock 0), .reload (.store 0),
    .reload (.unlock 0), .reload (.refresh 0)]

/-- The filter is changed, and the session that uses it is given the new one. -/
theorem reachable_given_filterChanged :
    ∃ s : FilterUse ℕ ℕ, Transition.Reachable Initial KeepsFilter step s ∧
      s.useRtcmFilter 0 = true ∧ s.reloads.config.gen = 2 ∧ s.CallsGiven := by
  have hobserve : ((reloadedAfterRequest [⟨cstr "BASE, ROVER", cstr "1077", []⟩]).foldlM
      (fun (s : FilterUse ℕ ℕ) l => if s.KeepsFilter l then s.step l else none)
      (new (some [positionsOnly]) [positionsOnly])).map
        (fun s => (s.useRtcmFilter 0, s.reloads.config.gen)) = some (true, 2) := by
    decide +kernel
  obtain ⟨s, hrun, hs⟩ := Option.map_eq_some_iff.mp hobserve
  have hreach : Transition.Reachable Initial KeepsFilter step s :=
    Transition.reachable_of_foldlM (.refl ⟨_, _, rfl⟩) hrun
  obtain ⟨hflag, hgen⟩ := Prod.mk.inj hs
  exact ⟨s, hreach, hflag, hgen, reachable_given hreach⟩

/-- The section is taken out of the file, and the next packet goes through a filter that is not
there. -/
theorem not_given_filterRemoved :
    ∃ s : FilterUse ℕ ℕ, Transition.Reachable Initial (fun _ _ => True) step s ∧
      ¬ s.CallsGiven := by
  have hobserve : ((reloadedAfterRequest []).foldlM
      (fun (s : FilterUse ℕ ℕ) l => if True then s.step l else none)
      (new (some [positionsOnly]) [positionsOnly])).map
        (fun s => (s.useRtcmFilter 0, (s.reloads.sessions 0).map
          fun u => u.config.dyn.rtcmFilter.isSome)) = some (true, some false) := by
    decide +kernel
  obtain ⟨s, hrun, hs⟩ := Option.map_eq_some_iff.mp hobserve
  refine ⟨s, Transition.reachable_of_foldlM (.refl ⟨_, _, rfl⟩) hrun, fun hgiven => ?_⟩
  obtain ⟨hflag, hu⟩ := Prod.mk.inj hs
  obtain ⟨u, hu, hfilter⟩ := Option.map_eq_some_iff.mp hu
  have hstep : s.step (.send 0) = some s := if_pos (by rw [hu]; rfl)
  have hcall : (0, .rtcmFilterPass u.config.dyn.rtcmFilter) ∈ s.calls (.send 0) :=
    List.mem_filterMap.mpr ⟨u, Option.mem_toList.mpr hu, if_pos hflag⟩
  obtain ⟨_, -, hsome, -⟩ := hgiven _ s hstep 0 _ hcall
  rw [hfilter] at hsome
  contradiction

end FilterUse

end ChilopodCaster
