import Mathlib.Order.Basic
import Mathlib.Order.Nat
import Mathlib.Data.Fintype.Basic
import Mathlib.Logic.Function.Basic
import ChilopodCaster.Lib.Transition

/-!
# Reloads side by side

`caster_reload` runs in the handler of `SIGHUP` and in the workers that serve the API. A call draws
its generation number and parses the file before it takes `configreload`, so the calls may store
their configurations in another order than the one in which they drew and parsed. The last one to
store wins, however old its file is.

A session follows the live configuration. Under a worker it compares generations, with the
configuration that the worker took a reference to; without one it takes the live configuration as
it is.

## Main definitions

* `Reloads` — the calls of `caster_reload`, the live configuration and the sessions
* `Reloads.step` — one atomic step of one of them
* `Reloads.InOrder` — a call stores its configuration before those that drew or parsed after it

## Main results

* `Reloads.reachable_advances` — in a run in which all calls store in order, generations advance
* `Reloads.not_advances_overtaken` — a run of two calls that brings back the older file
-/

namespace ChilopodCaster

/-- `struct config`: its generation number, and the rest as the file had it. `serial` is not in the
source: it counts the files parsed before this one. -/
structure GenConfig (α : Type) where
  gen : ℕ
  content : α
  serial : ℕ
  deriving DecidableEq, Repr

/-- The fields `config` and `tmpconfig` of a session. -/
structure ConfigUse (α : Type) where
  config : GenConfig α
  tmpconfig : Option (GenConfig α)
  deriving DecidableEq, Repr

/-- `ntrip_refresh_config`. Two configurations are the same pointer if they have the same
generation, which is drawn once. -/
def ConfigUse.ntripRefreshConfig {α : Type} (this : ConfigUse α) (live : GenConfig α) :
    ConfigUse α :=
  match this.tmpconfig with
  | some tmpconfig =>
    if tmpconfig.gen ≠ this.config.gen ∧ tmpconfig.gen > this.config.gen then
      { this with config := tmpconfig }
    else this
  | none => if live.gen ≠ this.config.gen then { this with config := live } else this

/-- Where a call of `caster_load` stands. -/
inductive ReloadCall (α : Type)
  | idle
  /-- `config_gen` has been incremented; `config_parse` runs. -/
  | drawn (gen : ℕ)
  /-- `config_parse` has returned; the call waits for `configreload`. -/
  | parsed (newConfig : Option (GenConfig α))
  /-- The call holds `configreload` and reloads the other files. -/
  | locked (newConfig : GenConfig α)
  /-- `config` has been stored; listeners and tasks follow. -/
  | stored (newConfig : GenConfig α)
  | returned (newConfig : Option (GenConfig α))
  deriving DecidableEq, Repr

/-- The generation number that the call has drawn, as long as its configuration is not stored. -/
def ReloadCall.waitingGen {α : Type} : ReloadCall α → Option ℕ
  | .drawn gen => some gen
  | .parsed newConfig => newConfig.map (·.gen)
  | .locked newConfig => some newConfig.gen
  | _ => none

/-- The configuration that the call has parsed and not stored. -/
def ReloadCall.waiting {α : Type} : ReloadCall α → Option (GenConfig α)
  | .parsed newConfig => newConfig
  | .locked newConfig => some newConfig
  | _ => none

/-- The configuration that the call has stored. -/
def ReloadCall.done {α : Type} : ReloadCall α → Option (GenConfig α)
  | .stored newConfig => some newConfig
  | .returned newConfig => newConfig
  | _ => none

/-- The calls `C`, the sessions `S`, and the fields of `struct caster_state` that they share.
`file` is what `config_parse` gives at the moment. `refs` are the references that workers have taken
with `caster_config_getref`. `parses` and `lastParsed` record what has been parsed. -/
structure Reloads (C S α : Type) where
  file : Option α
  configGen : ℕ
  config : GenConfig α
  configreload : Option C
  calls : C → ReloadCall α
  refs : List (GenConfig α)
  sessions : S → Option (ConfigUse α)
  parses : ℕ
  lastParsed : GenConfig α

inductive ReloadStep (C S α : Type)
  /-- Someone writes the file. -/
  | edit (file : Option α)
  | draw (c : C)
  | parse (c : C)
  | lock (c : C)
  | store (c : C)
  | unlock (c : C)
  /-- A worker takes a reference for the jobs of some session. -/
  | getref
  /-- `ntrip_new` without a configuration. -/
  | ntripNew (st : S)
  /-- `ntrip_new` for a task that the call starts. -/
  | ntripNewWith (c : C) (st : S)
  /-- A worker lends the session the reference `k`. -/
  | setTmp (st : S) (k : ℕ)
  | refresh (st : S)
  | clearTmp (st : S)
  deriving DecidableEq, Repr

namespace Reloads

variable {C S α : Type} [DecidableEq C] [DecidableEq S]

/-- After `caster_load` at startup. -/
def new (file : Option α) (content : α) : Reloads C S α where
  file := file
  configGen := 2
  config := ⟨1, content, 0⟩
  configreload := none
  calls := fun _ => .idle
  refs := []
  sessions := fun _ => none
  parses := 1
  lastParsed := ⟨1, content, 0⟩

/-- A call moves on. -/
def goto (this : Reloads C S α) (c : C) (call : ReloadCall α) : Reloads C S α :=
  { this with calls := Function.update this.calls c call }

/-- A session gets these configurations. -/
def use (this : Reloads C S α) (st : S) (u : ConfigUse α) : Reloads C S α :=
  { this with sessions := Function.update this.sessions st (some u) }

def step (this : Reloads C S α) : ReloadStep C S α → Option (Reloads C S α)
  | .edit file => some { this with file := file }
  | .draw c =>
    match this.calls c with
    | .idle => some { this.goto c (.drawn this.configGen) with configGen := this.configGen + 1 }
    | _ => none
  | .parse c =>
    match this.calls c, this.file with
    | .drawn _, none => some (this.goto c (.parsed none))
    | .drawn gen, some content =>
      some { this.goto c (.parsed (some ⟨gen, content, this.parses⟩)) with
        parses := this.parses + 1
        lastParsed := ⟨gen, content, this.parses⟩ }
    | _, _ => none
  | .lock c =>
    match this.calls c, this.configreload with
    | .parsed (some newConfig), none =>
      some { this.goto c (.locked newConfig) with configreload := some c }
    | .parsed none, none => some (this.goto c (.returned none))
    | _, _ => none
  | .store c =>
    match this.calls c with
    | .locked newConfig => some { this.goto c (.stored newConfig) with config := newConfig }
    | _ => none
  | .unlock c =>
    match this.calls c with
    | .stored newConfig =>
      some { this.goto c (.returned (some newConfig)) with configreload := none }
    | _ => none
  | .getref => some { this with refs := this.config :: this.refs }
  | .ntripNew st =>
    match this.sessions st with
    | none => some (this.use st ⟨this.config, none⟩)
    | some _ => none
  | .ntripNewWith c st =>
    match this.calls c, this.sessions st with
    | .stored newConfig, none => some (this.use st ⟨newConfig, none⟩)
    | _, _ => none
  | .setTmp st k =>
    match this.sessions st, this.refs[k]? with
    | some u, some ref => some (this.use st { u with tmpconfig := some ref })
    | _, _ => none
  | .refresh st =>
    match this.sessions st with
    | some u => some (this.use st (u.ntripRefreshConfig this.config))
    | none => none
  | .clearTmp st =>
    match this.sessions st with
    | some u => some (this.use st { u with tmpconfig := none })
    | none => none

/-- All calls have returned. -/
def Quiet (this : Reloads C S α) : Prop :=
  ∀ c, this.calls c = .idle ∨ ∃ newConfig, this.calls c = .returned newConfig

/-- A call that stores its configuration does so before all calls that drew a generation after it
and before all calls that parsed the file after it. -/
def InOrder (this : Reloads C S α) : ReloadStep C S α → Prop
  | .store c => ∀ c', ∀ newer ∈ (this.calls c').done, ∀ newConfig ∈ (this.calls c).waiting,
      newer.gen < newConfig.gen ∧ newer.serial < newConfig.serial
  | _ => True

/-! ### The invariant -/

/-- The generations and the files that the calls still hold are newer than the live configuration
was when it was stored, and all that the sessions hold is at most as new as the live one. -/
structure Aligned (this : Reloads C S α) : Prop where
  holder : ∀ c newConfig, this.calls c = .locked newConfig ∨ this.calls c = .stored newConfig →
    this.configreload = some c
  stored : ∀ c newConfig, this.calls c = .stored newConfig → newConfig = this.config
  gens : ∀ c, ∀ gen ∈ (this.calls c).waitingGen, gen < this.configGen
  serials : ∀ c, ∀ newConfig ∈ (this.calls c).waiting, newConfig.serial < this.parses
  config : this.config.gen < this.configGen ∧ this.config.serial < this.parses
  origin : (∃ c, this.config ∈ (this.calls c).done) ∨
    ∀ c, (∀ gen ∈ (this.calls c).waitingGen, this.config.gen < gen) ∧
      ∀ newConfig ∈ (this.calls c).waiting, this.config.serial < newConfig.serial
  last : this.lastParsed.serial + 1 = this.parses
  kept : this.config = this.lastParsed ∨ ∃ c, this.lastParsed ∈ (this.calls c).waiting
  refs : ∀ ref ∈ this.refs, ref.gen ≤ this.config.gen
  sessions : ∀ st, ∀ u ∈ this.sessions st, u.config.gen ≤ this.config.gen ∧
    ∀ tmpconfig ∈ u.tmpconfig, tmpconfig.gen ≤ this.config.gen

variable {this that : Reloads C S α}

omit [DecidableEq C] [DecidableEq S] in
theorem aligned_new (file : Option α) (content : α) :
    (new file content : Reloads C S α).Aligned where
  holder c newConfig h := by rcases h with h | h <;> contradiction
  stored c newConfig h := by contradiction
  gens c gen h := by contradiction
  serials c newConfig h := by contradiction
  config := ⟨Nat.one_lt_two, Nat.zero_lt_one⟩
  origin := .inr fun c => ⟨fun gen h => by contradiction, fun newConfig h => by contradiction⟩
  last := rfl
  kept := .inl rfl
  refs ref h := by contradiction
  sessions st u h := by contradiction

omit [DecidableEq S] in
/-- One call moves, and the others stay where they are. -/
theorem calls_cases {c : C} {call : ReloadCall α}
    (hcalls : that.calls = Function.update this.calls c call) (c' : C) :
    c' = c ∧ that.calls c' = call ∨ c' ≠ c ∧ that.calls c' = this.calls c' := by
  rw [hcalls]
  by_cases hne : c' = c
  · subst hne
    exact .inl ⟨rfl, Function.update_self _ _ _⟩
  · exact .inr ⟨hne, Function.update_of_ne hne _ _⟩

omit [DecidableEq S] in
/-- A call that has some property keeps it when another one moves, or when it moves itself and the
property is kept. -/
theorem exists_calls {c : C} {call : ReloadCall α}
    (hcalls : that.calls = Function.update this.calls c call) {P : ReloadCall α → Prop}
    (hc : P (this.calls c) → P call) (h : ∃ c', P (this.calls c')) : ∃ c', P (that.calls c') := by
  obtain ⟨c', hc'⟩ := h
  refine ⟨c', ?_⟩
  rcases calls_cases hcalls c' with ⟨rfl, heq⟩ | ⟨-, heq⟩
  · rw [heq]
    exact hc hc'
  · rwa [heq]

omit [DecidableEq S] in
/-- A call moves on without storing: what it holds afterwards it held before or got just now, and
what was parsed last is not lost. -/
theorem Aligned.move (h : this.Aligned) {c : C} {call : ReloadCall α}
    (hcalls : that.calls = Function.update this.calls c call)
    (hconfig : that.config = this.config) (hrefs : that.refs = this.refs)
    (hsessions : that.sessions = this.sessions) (hgen : this.configGen ≤ that.configGen)
    (hparses : this.parses ≤ that.parses)
    (hholder : ∀ newConfig, call = .locked newConfig ∨ call = .stored newConfig →
      that.configreload = some c)
    (hothers : ∀ c', c' ≠ c → this.configreload = some c' → that.configreload = some c')
    (hstored : ∀ newConfig, call ≠ .stored newConfig)
    (hgens : ∀ gen ∈ call.waitingGen, gen < that.configGen ∧
      (gen ∈ (this.calls c).waitingGen ∨ this.config.gen < gen))
    (hwaiting : ∀ newConfig ∈ call.waiting, newConfig.serial < that.parses ∧
      (newConfig ∈ (this.calls c).waiting ∨ this.config.serial < newConfig.serial))
    (hdone : ∀ newConfig ∈ (this.calls c).done, newConfig ∈ call.done)
    (hlast : that.lastParsed.serial + 1 = that.parses)
    (hkept : that.lastParsed ∈ call.waiting ∨ that.lastParsed = this.lastParsed ∧
      ∀ newConfig ∈ (this.calls c).waiting, newConfig ∈ call.waiting) : that.Aligned where
  holder := by
    intro c' newConfig hn
    rcases calls_cases hcalls c' with ⟨rfl, heq⟩ | ⟨hne, heq⟩
    · rw [heq] at hn
      exact hholder newConfig hn
    · rw [heq] at hn
      exact hothers c' hne (h.holder c' newConfig hn)
  stored := by
    intro c' newConfig hn
    rcases calls_cases hcalls c' with ⟨rfl, heq⟩ | ⟨-, heq⟩
    · rw [heq] at hn
      exact absurd hn (hstored newConfig)
    · rw [heq] at hn
      rw [hconfig]
      exact h.stored c' newConfig hn
  gens := by
    intro c' gen hg
    rcases calls_cases hcalls c' with ⟨rfl, heq⟩ | ⟨-, heq⟩
    · rw [heq] at hg
      exact (hgens gen hg).1
    · rw [heq] at hg
      exact lt_of_lt_of_le (h.gens c' gen hg) hgen
  serials := by
    intro c' newConfig hn
    rcases calls_cases hcalls c' with ⟨rfl, heq⟩ | ⟨-, heq⟩
    · rw [heq] at hn
      exact (hwaiting newConfig hn).1
    · rw [heq] at hn
      exact lt_of_lt_of_le (h.serials c' newConfig hn) hparses
  config := by
    rw [hconfig]
    exact ⟨lt_of_lt_of_le h.config.1 hgen, lt_of_lt_of_le h.config.2 hparses⟩
  origin := by
    rw [hconfig]
    rcases h.origin with hdone' | hfirst
    · exact .inl (exists_calls (P := fun call => this.config ∈ call.done) hcalls (hdone _) hdone')
    · refine .inr fun c' => ?_
      rcases calls_cases hcalls c' with ⟨rfl, heq⟩ | ⟨-, heq⟩
      · rw [heq]
        exact ⟨fun gen hg => (hgens gen hg).2.elim ((hfirst c').1 gen) id,
          fun newConfig hn => (hwaiting newConfig hn).2.elim ((hfirst c').2 newConfig) id⟩
      · rw [heq]
        exact hfirst c'
  last := hlast
  kept := by
    rw [hconfig]
    rcases hkept with hnew | ⟨hsame, hkeep⟩
    · exact .inr ⟨c, by rwa [hcalls, Function.update_self]⟩
    · rw [hsame]
      exact h.kept.imp_right
        (exists_calls (P := fun call => this.lastParsed ∈ call.waiting) hcalls (hkeep _))
  refs := by
    rw [hrefs, hconfig]
    exact h.refs
  sessions := by
    rw [hsessions, hconfig]
    exact h.sessions

omit [DecidableEq C] [DecidableEq S] in
/-- What a call that stores in order replaces is older than what it stores. -/
theorem Aligned.lt_of_inOrder (h : this.Aligned) {c : C} {newConfig : GenConfig α}
    (hc : this.calls c = .locked newConfig) (horder : this.InOrder (.store c)) :
    this.config.gen < newConfig.gen ∧ this.config.serial < newConfig.serial := by
  have hwaiting : newConfig ∈ (this.calls c).waiting := by rw [hc]; rfl
  have hgen : newConfig.gen ∈ (this.calls c).waitingGen := by rw [hc]; rfl
  rcases h.origin with ⟨c', hc'⟩ | hfirst
  · exact horder c' _ hc' _ hwaiting
  · exact ⟨(hfirst c).1 _ hgen, (hfirst c).2 _ hwaiting⟩

omit [DecidableEq S] in
theorem Aligned.store (h : this.Aligned) {c : C} {newConfig : GenConfig α}
    (hc : this.calls c = .locked newConfig) (horder : this.InOrder (.store c)) :
    { this.goto c (.stored newConfig) with config := newConfig : Reloads C S α }.Aligned := by
  obtain ⟨hgen, hserial⟩ := h.lt_of_inOrder hc horder
  have hwaiting : newConfig ∈ (this.calls c).waiting := by rw [hc]; rfl
  have hholder : this.configreload = some c := h.holder c newConfig (.inl hc)
  have hcalls : { this.goto c (.stored newConfig) with config := newConfig : Reloads C S α }.calls =
      Function.update this.calls c (.stored newConfig) := rfl
  constructor
  · intro c' n hn
    rcases calls_cases hcalls c' with ⟨rfl, -⟩ | ⟨-, heq⟩
    · exact hholder
    · rw [heq] at hn
      exact h.holder c' n hn
  · intro c' n hn
    rcases calls_cases hcalls c' with ⟨-, heq⟩ | ⟨hne, heq⟩
    · rw [heq] at hn
      exact (ReloadCall.stored.inj hn).symm
    · rw [heq] at hn
      have hboth := (h.holder c' n (.inr hn)).symm.trans hholder
      exact absurd (Option.some.inj hboth) hne
  · intro c' gen hg
    rcases calls_cases hcalls c' with ⟨-, heq⟩ | ⟨-, heq⟩
    · rw [heq] at hg
      contradiction
    · rw [heq] at hg
      exact h.gens c' gen hg
  · intro c' n hn
    rcases calls_cases hcalls c' with ⟨-, heq⟩ | ⟨-, heq⟩
    · rw [heq] at hn
      contradiction
    · rw [heq] at hn
      exact h.serials c' n hn
  · refine ⟨h.gens c _ ?_, h.serials c _ hwaiting⟩
    rw [hc]
    rfl
  · exact .inl ⟨c, by rw [hcalls, Function.update_self]; rfl⟩
  · exact h.last
  · -- the file parsed last is the one stored now, or some other call still holds it
    have hlast : this.lastParsed.serial + 1 = this.parses := h.last
    rcases h.kept with heq | ⟨c', hc'⟩
    · have hnew := h.serials c _ hwaiting
      rw [← heq] at hlast
      omega
    · by_cases hne : c' = c
      · rw [hne, hc] at hc'
        exact .inl (Option.some.inj hc')
      · exact .inr ⟨c', by rwa [hcalls, Function.update_of_ne hne]⟩
  · intro ref hr
    exact (h.refs ref hr).trans hgen.le
  · intro st u hu
    obtain ⟨hle, htmp⟩ := h.sessions st u hu
    exact ⟨hle.trans hgen.le, fun t ht => (htmp t ht).trans hgen.le⟩

omit [DecidableEq C] in
theorem Aligned.use (h : this.Aligned) (st : S) {u : ConfigUse α}
    (hle : u.config.gen ≤ this.config.gen)
    (htmp : ∀ tmpconfig ∈ u.tmpconfig, tmpconfig.gen ≤ this.config.gen) :
    (this.use st u).Aligned where
  holder := h.holder
  stored := h.stored
  gens := h.gens
  serials := h.serials
  config := h.config
  origin := h.origin
  last := h.last
  kept := h.kept
  refs := h.refs
  sessions := by
    intro st' u' hu'
    by_cases hne : st' = st
    · rw [hne] at hu'
      have hself : (this.use st u).sessions st = some u := Function.update_self _ _ _
      obtain rfl := Option.some.inj (hself.symm.trans hu')
      exact ⟨hle, htmp⟩
    · have hother : (this.use st u).sessions st' = this.sessions st' :=
        Function.update_of_ne hne _ _
      rw [hother] at hu'
      exact h.sessions st' u' hu'

/-- A refresh takes a configuration that is at least as new. -/
theorem refresh_le {u : ConfigUse α} {live : GenConfig α} (hle : u.config.gen ≤ live.gen) :
    u.config.gen ≤ (u.ntripRefreshConfig live).config.gen := by
  unfold ConfigUse.ntripRefreshConfig
  split
  · split
    · next hnewer => exact hnewer.2.le
    · exact le_rfl
  · split
    · exact hle
    · exact le_rfl

omit [DecidableEq C] in
theorem Aligned.refresh (h : this.Aligned) {st : S} {u : ConfigUse α}
    (hu : this.sessions st = some u) :
    (this.use st (u.ntripRefreshConfig this.config)).Aligned := by
  obtain ⟨hle, htmp⟩ := h.sessions st u hu
  unfold ConfigUse.ntripRefreshConfig
  split
  · next tmpconfig hsome =>
    split
    · exact h.use st (htmp tmpconfig hsome) htmp
    · exact h.use st hle htmp
  · split
    · exact h.use st le_rfl htmp
    · exact h.use st hle htmp

omit [DecidableEq S] in
theorem Aligned.draw (h : this.Aligned) {c : C} (hc : this.calls c = .idle) :
    { this.goto c (.drawn this.configGen) with
      configGen := this.configGen + 1 : Reloads C S α }.Aligned := by
  refine h.move rfl rfl rfl rfl (Nat.le_succ _) le_rfl ?_ (fun _ _ hr => hr) ?_ ?_ ?_ ?_ h.last ?_
  · rintro newConfig (hn | hn) <;> contradiction
  · intro newConfig hn
    contradiction
  · rintro gen ⟨⟩
    exact ⟨Nat.lt_succ_self _, .inr h.config.1⟩
  · intro newConfig hn
    contradiction
  · intro newConfig hn
    rw [hc] at hn
    contradiction
  · refine .inr ⟨rfl, fun newConfig hn => ?_⟩
    rw [hc] at hn
    contradiction

omit [DecidableEq S] in
theorem Aligned.parse_none (h : this.Aligned) {c : C} {gen : ℕ} (hc : this.calls c = .drawn gen) :
    (this.goto c (.parsed none)).Aligned := by
  refine h.move rfl rfl rfl rfl le_rfl le_rfl ?_ (fun _ _ hr => hr) ?_ ?_ ?_ ?_ h.last ?_
  · rintro newConfig (hn | hn) <;> contradiction
  · intro newConfig hn
    contradiction
  · intro gen hg
    contradiction
  · intro newConfig hn
    contradiction
  · intro newConfig hn
    rw [hc] at hn
    contradiction
  · refine .inr ⟨rfl, fun newConfig hn => ?_⟩
    rw [hc] at hn
    contradiction

omit [DecidableEq S] in
theorem Aligned.parse_some (h : this.Aligned) {c : C} {gen : ℕ} (hc : this.calls c = .drawn gen)
    (content : α) :
    { this.goto c (.parsed (some ⟨gen, content, this.parses⟩)) with
      parses := this.parses + 1
      lastParsed := ⟨gen, content, this.parses⟩ : Reloads C S α }.Aligned := by
  have hgen : gen ∈ (this.calls c).waitingGen := by rw [hc]; rfl
  refine h.move rfl rfl rfl rfl le_rfl (Nat.le_succ _) ?_ (fun _ _ hr => hr) ?_ ?_ ?_ ?_ rfl
    (.inl rfl)
  · rintro newConfig (hn | hn) <;> contradiction
  · intro newConfig hn
    contradiction
  · rintro gen' ⟨⟩
    exact ⟨h.gens c gen hgen, .inl hgen⟩
  · rintro newConfig ⟨⟩
    exact ⟨Nat.lt_succ_self _, .inr h.config.2⟩
  · intro newConfig hn
    rw [hc] at hn
    contradiction

omit [DecidableEq S] in
theorem Aligned.lock_some (h : this.Aligned) {c : C} {newConfig : GenConfig α}
    (hc : this.calls c = .parsed (some newConfig)) (hfree : this.configreload = none) :
    { this.goto c (.locked newConfig) with configreload := some c : Reloads C S α }.Aligned := by
  have hgen : newConfig.gen ∈ (this.calls c).waitingGen := by rw [hc]; rfl
  have hwaiting : newConfig ∈ (this.calls c).waiting := by rw [hc]; rfl
  refine h.move rfl rfl rfl rfl le_rfl le_rfl (fun _ _ => rfl) ?_ ?_ ?_ ?_ ?_ h.last ?_
  · intro c' hne hheld
    rw [hfree] at hheld
    contradiction
  · intro n hn
    contradiction
  · rintro gen ⟨⟩
    exact ⟨h.gens c _ hgen, .inl hgen⟩
  · rintro n ⟨⟩
    exact ⟨h.serials c _ hwaiting, .inl hwaiting⟩
  · intro n hn
    rw [hc] at hn
    contradiction
  · refine .inr ⟨rfl, fun n hn => ?_⟩
    rw [hc] at hn
    exact hn

omit [DecidableEq S] in
theorem Aligned.lock_none (h : this.Aligned) {c : C} (hc : this.calls c = .parsed none) :
    (this.goto c (.returned none)).Aligned := by
  refine h.move rfl rfl rfl rfl le_rfl le_rfl ?_ (fun _ _ hr => hr) ?_ ?_ ?_ ?_ h.last ?_
  · rintro newConfig (hn | hn) <;> contradiction
  · intro newConfig hn
    contradiction
  · intro gen hg
    contradiction
  · intro newConfig hn
    contradiction
  · intro newConfig hn
    rw [hc] at hn
    contradiction
  · refine .inr ⟨rfl, fun newConfig hn => ?_⟩
    rw [hc] at hn
    contradiction

omit [DecidableEq S] in
theorem Aligned.unlock (h : this.Aligned) {c : C} {newConfig : GenConfig α}
    (hc : this.calls c = .stored newConfig) :
    { this.goto c (.returned (some newConfig)) with configreload := none : Reloads C S α
      }.Aligned := by
  have hholder : this.configreload = some c := h.holder c newConfig (.inr hc)
  refine h.move rfl rfl rfl rfl le_rfl le_rfl ?_ ?_ ?_ ?_ ?_ ?_ h.last ?_
  · rintro n (hn | hn) <;> contradiction
  · intro c' hne hheld
    exact absurd (Option.some.inj (hheld.symm.trans hholder)) hne
  · intro n hn
    contradiction
  · intro gen hg
    contradiction
  · intro n hn
    contradiction
  · intro n hn
    rw [hc] at hn
    exact hn
  · refine .inr ⟨rfl, fun n hn => ?_⟩
    rw [hc] at hn
    contradiction

/-- **A step keeps the invariant**, if it stores in order. -/
theorem Aligned.step (h : this.Aligned) {l : ReloadStep C S α} (horder : this.InOrder l)
    (hstep : this.step l = some that) : that.Aligned := by
  cases l with
  | edit file =>
    obtain rfl := Option.some.inj hstep
    exact ⟨h.holder, h.stored, h.gens, h.serials, h.config, h.origin, h.last, h.kept, h.refs,
      h.sessions⟩
  | draw c =>
    simp only [Reloads.step] at hstep
    split at hstep
    · next hc =>
      obtain rfl := Option.some.inj hstep
      exact h.draw hc
    · contradiction
  | parse c =>
    simp only [Reloads.step] at hstep
    split at hstep
    · next hc hfile =>
      obtain rfl := Option.some.inj hstep
      exact h.parse_none hc
    · next gen content hc hfile =>
      obtain rfl := Option.some.inj hstep
      exact h.parse_some hc content
    · contradiction
  | lock c =>
    simp only [Reloads.step] at hstep
    split at hstep
    · next hc hfree =>
      obtain rfl := Option.some.inj hstep
      exact h.lock_some hc hfree
    · next hc hfree =>
      obtain rfl := Option.some.inj hstep
      exact h.lock_none hc
    · contradiction
  | store c =>
    simp only [Reloads.step] at hstep
    split at hstep
    · next hc =>
      obtain rfl := Option.some.inj hstep
      exact h.store hc horder
    · contradiction
  | unlock c =>
    simp only [Reloads.step] at hstep
    split at hstep
    · next hc =>
      obtain rfl := Option.some.inj hstep
      exact h.unlock hc
    · contradiction
  | getref =>
    obtain rfl := Option.some.inj hstep
    refine ⟨h.holder, h.stored, h.gens, h.serials, h.config, h.origin, h.last, h.kept, ?_,
      h.sessions⟩
    intro ref hr
    rcases List.mem_cons.mp hr with rfl | hr
    · exact le_rfl
    · exact h.refs ref hr
  | ntripNew st =>
    simp only [Reloads.step] at hstep
    split at hstep
    · obtain rfl := Option.some.inj hstep
      exact h.use st le_rfl fun t ht => by contradiction
    · contradiction
  | ntripNewWith c st =>
    simp only [Reloads.step] at hstep
    split at hstep
    · next newConfig hc hnone =>
      obtain rfl := Option.some.inj hstep
      obtain rfl := h.stored c newConfig hc
      exact h.use st le_rfl fun t ht => by contradiction
    · contradiction
  | setTmp st k =>
    simp only [Reloads.step] at hstep
    split at hstep
    · next u ref hu href =>
      obtain rfl := Option.some.inj hstep
      refine h.use st (h.sessions st u hu).1 ?_
      rintro t ⟨⟩
      exact h.refs ref (List.mem_of_getElem? href)
    · contradiction
  | refresh st =>
    simp only [Reloads.step] at hstep
    split at hstep
    · next u hu =>
      obtain rfl := Option.some.inj hstep
      exact h.refresh hu
    · contradiction
  | clearTmp st =>
    simp only [Reloads.step] at hstep
    split at hstep
    · next u hu =>
      obtain rfl := Option.some.inj hstep
      exact h.use st (h.sessions st u hu).1 fun t ht => by contradiction
    · contradiction

/-! ### What advances -/

/-- The sessions of `this` are those of `that`, or some of them, with configurations that are at
least as new. -/
def SessionsLe (this that : Reloads C S α) : Prop :=
  ∀ st u, this.sessions st = some u → ∃ u', that.sessions st = some u' ∧
    u.config.gen ≤ u'.config.gen

omit [DecidableEq C] [DecidableEq S] in
theorem sessionsLe_of_eq (h : that.sessions = this.sessions) : this.SessionsLe that := by
  intro st u hu
  exact ⟨u, by rw [h, hu], le_rfl⟩

omit [DecidableEq C] [DecidableEq S] in
theorem SessionsLe.trans {other : Reloads C S α} (h : this.SessionsLe that)
    (h' : that.SessionsLe other) : this.SessionsLe other := by
  intro st u hu
  obtain ⟨u', hu', hle⟩ := h st u hu
  obtain ⟨u'', hu'', hle'⟩ := h' st u' hu'
  exact ⟨u'', hu'', hle.trans hle'⟩

omit [DecidableEq C] in
theorem sessionsLe_use {st : S} {u' : ConfigUse α}
    (h : ∀ u, this.sessions st = some u → u.config.gen ≤ u'.config.gen) :
    this.SessionsLe (this.use st u') := by
  intro st' u hu
  by_cases hne : st' = st
  · subst hne
    exact ⟨u', Function.update_self _ _ _, h u hu⟩
  · refine ⟨u, ?_, le_rfl⟩
    rw [← hu]
    exact Function.update_of_ne hne _ _

/-- No step takes a session back to an older configuration. -/
theorem Aligned.sessionsLe (h : this.Aligned) {l : ReloadStep C S α}
    (hstep : this.step l = some that) : this.SessionsLe that := by
  cases l with
  | edit file =>
    obtain rfl := Option.some.inj hstep
    exact sessionsLe_of_eq rfl
  | getref =>
    obtain rfl := Option.some.inj hstep
    exact sessionsLe_of_eq rfl
  | draw c | parse c | lock c | store c | unlock c =>
    simp only [Reloads.step] at hstep
    split at hstep <;> first
      | contradiction
      | obtain rfl := Option.some.inj hstep
        exact sessionsLe_of_eq rfl
  | ntripNew st =>
    simp only [Reloads.step] at hstep
    split at hstep
    · next hnone =>
      obtain rfl := Option.some.inj hstep
      exact sessionsLe_use fun u hu => by rw [hnone] at hu; contradiction
    · contradiction
  | ntripNewWith c st =>
    simp only [Reloads.step] at hstep
    split at hstep
    · next hc hnone =>
      obtain rfl := Option.some.inj hstep
      exact sessionsLe_use fun u hu => by rw [hnone] at hu; contradiction
    · contradiction
  | setTmp st k =>
    simp only [Reloads.step] at hstep
    split at hstep
    · next u ref hu href =>
      obtain rfl := Option.some.inj hstep
      refine sessionsLe_use fun u' hu' => ?_
      obtain rfl := Option.some.inj (hu.symm.trans hu')
      exact le_rfl
    · contradiction
  | refresh st =>
    simp only [Reloads.step] at hstep
    split at hstep
    · next u hu =>
      obtain rfl := Option.some.inj hstep
      refine sessionsLe_use fun u' hu' => ?_
      obtain rfl := Option.some.inj (hu.symm.trans hu')
      exact refresh_le (h.sessions st u hu).1
    · contradiction
  | clearTmp st =>
    simp only [Reloads.step] at hstep
    split at hstep
    · next u hu =>
      obtain rfl := Option.some.inj hstep
      refine sessionsLe_use fun u' hu' => ?_
      obtain rfl := Option.some.inj (hu.symm.trans hu')
      exact le_rfl
    · contradiction

/-- The caster has been started. -/
def Initial (this : Reloads C S α) : Prop := ∃ file content, this = new file content

/-- What a reload must not undo: the step `l` from `this` to `that` stores only a newer
configuration, no session goes back to an older one, and once all calls have returned the file
parsed last is live. -/
structure Advances (this : Reloads C S α) (l : ReloadStep C S α) (that : Reloads C S α) :
    Prop where
  stored : ∀ c, l = .store c → this.config.gen < that.config.gen
  sessions : this.SessionsLe that
  quiet : that.Quiet → that.config = that.lastParsed

theorem reachable_aligned (h : Transition.Reachable Initial InOrder step this) : this.Aligned := by
  refine h.invariant ?_ fun s l s' hs horder hstep => hs.step horder hstep
  rintro s ⟨file, content, rfl⟩
  exact aligned_new file content

omit [DecidableEq C] [DecidableEq S] in
theorem Aligned.config_eq_lastParsed (h : this.Aligned) (hquiet : this.Quiet) :
    this.config = this.lastParsed := by
  rcases h.kept with heq | ⟨c, hc⟩
  · exact heq
  · rcases hquiet c with hidle | ⟨newConfig, hreturned⟩
    · rw [hidle] at hc
      contradiction
    · rw [hreturned] at hc
      contradiction

/-- **In a run in which every configuration is stored before those that were drawn or parsed after
it, reloads advance**: each one stored is newer than the one it replaces, the file parsed last is
live when all calls have returned, and no session ever goes back. -/
theorem reachable_advances (h : Transition.Reachable Initial InOrder step this)
    {l : ReloadStep C S α} (horder : this.InOrder l) (hstep : this.step l = some that) :
    Advances this l that where
  stored := by
    rintro c rfl
    simp only [step] at hstep
    split at hstep
    · next newConfig hc =>
      obtain rfl := Option.some.inj hstep
      exact ((reachable_aligned h).lt_of_inOrder hc horder).1
    · contradiction
  sessions := (reachable_aligned h).sessionsLe hstep
  quiet := ((reachable_aligned h).step horder hstep).config_eq_lastParsed

instance [Fintype C] (this : Reloads C S α) (l : ReloadStep C S α) :
    Decidable (this.InOrder l) :=
  match l with
  | .store c => inferInstanceAs (Decidable (∀ c', ∀ newer ∈ (this.calls c').done,
      ∀ newConfig ∈ (this.calls c).waiting,
        newer.gen < newConfig.gen ∧ newer.serial < newConfig.serial))
  | .edit _ | .draw _ | .parse _ | .lock _ | .unlock _ | .getref | .ntripNew _
  | .ntripNewWith _ _ | .setTmp _ _ | .refresh _ | .clearTmp _ => inferInstanceAs (Decidable True)

/-- Two calls overlap and store in order; a session is refreshed in between. -/
theorem reachable_advances_overlapping :
    ∃ this that : Reloads (Fin 2) Unit ℕ, this.step (.store 1) = some that ∧
      this.config.gen = 2 ∧ that.config.gen = 3 ∧ Advances this (.store 1) that := by
  have hobserve : (([.draw 0, .parse 0, .edit (some 11), .draw 1, .parse 1, .lock 0, .store 0,
      .ntripNew (), .unlock 0, .lock 1] : List (ReloadStep (Fin 2) Unit ℕ)).foldlM
      (fun (s : Reloads (Fin 2) Unit ℕ) l => if s.InOrder l then s.step l else none)
      (new (some 10) 9)).map (fun s => (s.config.gen, decide (s.InOrder (.store 1)),
        (s.step (.store 1)).map fun s' => s'.config.gen)) = some (2, true, some 3) := by
    decide +kernel
  obtain ⟨this, hrun, hthis⟩ := Option.map_eq_some_iff.mp hobserve
  have hreach : Transition.Reachable Initial InOrder step this :=
    Transition.reachable_of_foldlM (.refl ⟨some 10, 9, rfl⟩) hrun
  obtain ⟨hgen, hrest⟩ := Prod.mk.inj hthis
  obtain ⟨horder, hnext⟩ := Prod.mk.inj hrest
  obtain ⟨that, hstep, hthat⟩ := Option.map_eq_some_iff.mp hnext
  exact ⟨this, that, hstep, hgen, hthat,
    reachable_advances hreach (of_decide_eq_true horder) hstep⟩

/-- The second call parses the newer file and stores it first; the first call then brings back the
older one. -/
theorem not_advances_overtaken :
    ¬ ∀ this that : Reloads (Fin 2) Unit ℕ, ∀ l : ReloadStep (Fin 2) Unit ℕ,
      Transition.Reachable Initial (fun _ _ => True) step this → this.step l = some that →
        Advances this l that := by
  intro hall
  have hobserve : (([.draw 0, .parse 0, .edit (some 11), .draw 1, .parse 1, .lock 1, .store 1,
      .unlock 1, .lock 0] : List (ReloadStep (Fin 2) Unit ℕ)).foldlM
      (fun (s : Reloads (Fin 2) Unit ℕ) l => if True then s.step l else none)
      (new (some 10) 9)).map (fun s => (s.config.gen,
        (s.step (.store 0)).map fun s' => s'.config.gen)) = some (3, some 2) := by
    decide +kernel
  obtain ⟨this, hrun, hthis⟩ := Option.map_eq_some_iff.mp hobserve
  have hreach : Transition.Reachable Initial (fun _ _ => True) step this :=
    Transition.reachable_of_foldlM (.refl ⟨some 10, 9, rfl⟩) hrun
  obtain ⟨hgen, hnext⟩ := Prod.mk.inj hthis
  obtain ⟨that, hstep, hthat⟩ := Option.map_eq_some_iff.mp hnext
  have hlt := (hall this that (.store 0) hreach hstep).stored 0 rfl
  rw [hgen, hthat] at hlt
  exact absurd hlt (by decide)

end Reloads

end ChilopodCaster
