import ChilopodCaster.Bytes

/-!
# Lines of a sourcetable

A sourcetable describes the mountpoints a caster offers, one `STR` line for each. `sourceline.c`
parses such a line into the fields the caster uses. Coordinates are `float`s: their type is a
parameter, and so is the conversion `%f` of `sscanf`.
-/

namespace ChilopodCaster

/-- `pos_t`. -/
structure Pos (F : Type) where
  lat : F
  lon : F
  deriving DecidableEq, Repr

/-- `struct sourceline`. The parser leaves `bps` alone when the line has no number for it. -/
structure Sourceline (F : Type) where
  /-- mountpoint name -/
  key : CString
  /-- the whole line -/
  value : CString
  pos : Pos F
  bps : Option (BitVec 32)
  /-- the field `virtual`, a `char` -/
  virt : BitVec 8
  onDemand : Bool
  host : CString
  port : BitVec 16
  tls : Bool
  deriving DecidableEq

namespace Sourceline

variable {F : Type}

/-- Whether the source is virtual. -/
def IsVirtual (this : Sourceline F) : Prop := this.virt ≠ 0

instance (this : Sourceline F) : Decidable this.IsVirtual := inferInstanceAs (Decidable (_ ≠ _))

/-- What a source line starts with. -/
def strMark : CString := cstr "STR;"

/-- The semicolon. -/
def semicolon : Byte := 0x3b

/-- `sourceline_new_parse`: the line must have a mountpoint name that a semicolon ends, 19 fields,
and numbers for the latitude and the longitude. `scanFloat` is `sscanf(token, "%f", ...)`. -/
def newParse (scanFloat : CString → Option F) (entry caster : CString) (port : BitVec 16)
    (tls onDemand : Bool) : Option (Sourceline F) := do
  if entry.take 4 ≠ strMark then none
  let p₁ := entry.drop 4
  let key := p₁.takeWhile (· ≠ semicolon)
  if p₁.dropWhile (· ≠ semicolon) = [] then none
  -- `strsep`, which makes a field of what is between any two semicolons
  let tokens := entry.splitOn semicolon
  if tokens.length ≠ 19 then none
  let lat ← scanFloat (tokens.getD 9 [])
  let lon ← scanFloat (tokens.getD 10 [])
  return {
    key := key
    value := entry
    pos := ⟨lat, lon⟩
    bps := sscanfD (tokens.getD 17 [])
    virt := ((sscanfD (tokens.getD 11 [])).map (·.setWidth 8)).getD 0
    onDemand := onDemand
    host := caster
    port := port
    tls := tls }

end Sourceline

end ChilopodCaster
