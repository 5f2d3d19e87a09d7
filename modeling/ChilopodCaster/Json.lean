import ChilopodCaster.Bytes
import Mathlib.Data.Rat.Floor

/-!
# JSON values, as json-c gives access to them

The nodes of a cluster exchange JSON texts, which json-c parses and prints. A null JSON value is
the null pointer in json-c, so `Json.null` also stands for a field that is not there. The
accessors never fail: each one has a value for a JSON value of another type. How json-c prints a
value that is not a string is a parameter where it matters.

A C string ends at its first NUL, so what the caster sees of a JSON string is what comes before.
-/

namespace ChilopodCaster

/-- A JSON value. The fields of an object are in the order they were added. -/
inductive Json
  | null
  | boolean (b : Bool)
  | double (x : ℚ)
  | int (i : ℤ)
  | string (s : CString)
  | array (l : List Json)
  | object (fields : List (CString × Json))

namespace Json

/-- `json_object_object_get`. -/
def objectGet (j : Json) (key : CString) : Json :=
  match j with
  | object fields => ((fields.find? (·.1 = key)).map Prod.snd).getD null
  | _ => null

/-- Whether the pointer is null. -/
def isNull : Json → Bool
  | null => true
  | _ => false

/-- `json_object_get_string`; `text` is how json-c prints a value that is not a string. -/
def getString (text : Json → CString) : Json → Option CString
  | null => none
  | string s => some (s.takeWhile (· ≠ 0))
  | j => some (text j)

/-- A C string is read back from JSON as it was written. -/
theorem getString_string (text : Json → CString) {s : CString} (h : 0 ∉ s) :
    (string s).getString text = some s := by
  rw [getString, List.takeWhile_eq_self_iff.mpr]
  intro c hc
  have hne : c ≠ 0 := fun heq => h (heq ▸ hc)
  exact decide_eq_true hne

theorem isSome_getString (text : Json → CString) {j : Json} (h : j.isNull = false) :
    (j.getString text).isSome := by
  cases j with
  | null => contradiction
  | _ => rfl

/-- A number brought between two bounds. -/
def clamp (lo hi x : ℤ) : ℤ := max lo (min hi x)

/-- Truncation of a `double` towards zero. -/
def truncate (x : ℚ) : ℤ := if 0 ≤ x then ⌊x⌋ else ⌈x⌉

/-- `json_object_get_int64`. -/
def getInt64 : Json → ℤ
  | boolean b => b.toNat
  | double x => clamp (-2 ^ 63) (2 ^ 63 - 1) (truncate x)
  | int i => clamp (-2 ^ 63) (2 ^ 63 - 1) i
  | string s => (strtoll s).getD 0
  | _ => 0

/-- A counter: `json_object_get_int64`, converted to `unsigned long long`. -/
def getUint64 (j : Json) : BitVec 64 := BitVec.ofInt 64 j.getInt64

/-- A counter is read back as it was written with `json_object_new_int64`. -/
theorem getUint64_int (n : BitVec 64) : (int n.toInt).getUint64 = n := by
  have hlo : -2 ^ 63 ≤ n.toInt := n.le_toInt
  have hhi : n.toInt < 2 ^ 63 := n.toInt_lt
  have hclamp : clamp (-2 ^ 63) (2 ^ 63 - 1) n.toInt = n.toInt := by
    rw [clamp]
    omega
  rw [getUint64, getInt64, hclamp, BitVec.ofInt_toInt]

/-- `json_object_get_int`. -/
def getInt : Json → ℤ
  | boolean b => b.toNat
  | double x => clamp (-2 ^ 31) (2 ^ 31 - 1) (truncate x)
  | int i => clamp (-2 ^ 31) (2 ^ 31 - 1) i
  | string s => clamp (-2 ^ 31) (2 ^ 31 - 1) ((strtoll s).getD 0)
  | _ => 0

/-- `json_object_get_boolean`. -/
def getBoolean : Json → Bool
  | boolean b => b
  | double x => x ≠ 0
  | int i => i ≠ 0
  | string s => s ≠ []
  | _ => false

/-- The fields `json_object_iter_begin` goes through. It dereferences a null pointer on a value that
is not an object: `none`. -/
def iterFields : Json → Option (List (CString × Json))
  | object fields => some fields
  | _ => none

end Json

end ChilopodCaster
