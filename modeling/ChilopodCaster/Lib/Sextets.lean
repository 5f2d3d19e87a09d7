import Mathlib.Data.List.Basic

/-!
# Sextets

A sequence of bytes can be cut into groups of six bits instead of eight: three bytes make four
sextets. One byte more makes two sextets, and two bytes make three; the bits that are left in the
last one are zeros.

## Main definitions

* `Sextets.ofBytes`, `Sextets.toBytes` — bytes to sextets and back
* `Sextets.unused` — the bits of the last sextet that are in no byte

## Main results

* `Sextets.toBytes_ofBytes` — bytes come back
* `Sextets.ofBytes_toBytes` — sextets come back, if the unused bits are zeros
-/

namespace ChilopodCaster

namespace Sextets

/-- The sextets of a sequence of bytes. -/
def ofBytes : List ℕ → List ℕ
  | a :: b :: c :: s => a / 4 :: (a % 4 * 16 + b / 16) :: (b % 16 * 4 + c / 64) :: c % 64 ::
      ofBytes s
  | [a, b] => [a / 4, a % 4 * 16 + b / 16, b % 16 * 4]
  | [a] => [a / 4, a % 4 * 16]
  | [] => []

/-- The bytes of a sequence of sextets. -/
def toBytes : List ℕ → List ℕ
  | a :: b :: c :: d :: v => (a * 4 + b / 16) :: (b % 16 * 16 + c / 4) :: (c % 4 * 64 + d) ::
      toBytes v
  | [a, b, c] => [a * 4 + b / 16, b % 16 * 16 + c / 4]
  | [a, b] => [a * 4 + b / 16]
  | [_] => []
  | [] => []

/-- The bits of the last sextet that are in no byte. -/
def unused (v : List ℕ) : ℕ :=
  if v.length % 4 = 3 then v.getLastD 0 % 4
  else if v.length % 4 = 2 then v.getLastD 0 % 16
  else 0

theorem unused_append (a b c d : ℕ) (v : List ℕ) : unused (a :: b :: c :: d :: v) = unused v := by
  have hlen : (a :: b :: c :: d :: v).length % 4 = v.length % 4 := by
    simp only [List.length_cons]
    omega
  rw [unused, unused, hlen]
  cases v with
  | nil => rfl
  | cons e v => rfl

/-- Sextets are less than 64. -/
theorem ofBytes_lt {s : List ℕ} (h : ∀ a ∈ s, a < 256) : ∀ b ∈ ofBytes s, b < 64 := by
  induction s using ofBytes.induct with
  | case1 a b c s ih =>
    simp only [List.forall_mem_cons] at h
    obtain ⟨ha, hb, hc, hs⟩ := h
    simp only [ofBytes, List.forall_mem_cons]
    exact ⟨by omega, by omega, by omega, by omega, ih hs⟩
  | case2 a b =>
    simp only [List.forall_mem_cons] at h
    simp only [ofBytes, List.forall_mem_cons]
    exact ⟨by omega, by omega, by omega, fun _ hmem => absurd hmem List.not_mem_nil⟩
  | case3 a =>
    simp only [List.forall_mem_cons] at h
    simp only [ofBytes, List.forall_mem_cons]
    exact ⟨by omega, by omega, fun _ hmem => absurd hmem List.not_mem_nil⟩
  | case4 => exact fun _ hmem => absurd hmem List.not_mem_nil

/-- Bytes are less than 256. -/
theorem toBytes_lt {v : List ℕ} (h : ∀ a ∈ v, a < 64) : ∀ b ∈ toBytes v, b < 256 := by
  induction v using toBytes.induct with
  | case1 a b c d v ih =>
    simp only [List.forall_mem_cons] at h
    obtain ⟨ha, hb, hc, hd, hv⟩ := h
    simp only [toBytes, List.forall_mem_cons]
    exact ⟨by omega, by omega, by omega, ih hv⟩
  | case2 a b c =>
    simp only [List.forall_mem_cons] at h
    simp only [toBytes, List.forall_mem_cons]
    exact ⟨by omega, by omega, fun _ hmem => absurd hmem List.not_mem_nil⟩
  | case3 a b =>
    simp only [List.forall_mem_cons] at h
    simp only [toBytes, List.forall_mem_cons]
    exact ⟨by omega, fun _ hmem => absurd hmem List.not_mem_nil⟩
  | case4 a => simp only [toBytes, List.not_mem_nil, false_implies, implies_true]
  | case5 => simp only [toBytes, List.not_mem_nil, false_implies, implies_true]

theorem length_ofBytes (s : List ℕ) :
    (ofBytes s).length = s.length / 3 * 4 + if s.length % 3 = 0 then 0 else s.length % 3 + 1 := by
  induction s using ofBytes.induct with
  | case1 a b c s ih =>
    simp only [ofBytes, List.length_cons, ih]
    have hmod : (s.length + 1 + 1 + 1) % 3 = s.length % 3 := by omega
    rw [hmod]
    omega
  | case2 a b => simp only [ofBytes, List.length_cons, List.length_nil]; rfl
  | case3 a => simp only [ofBytes, List.length_cons, List.length_nil]; rfl
  | case4 => simp only [ofBytes, List.length_nil]; rfl

theorem length_toBytes (v : List ℕ) : (toBytes v).length = v.length * 3 / 4 := by
  induction v using toBytes.induct with
  | case1 a b c d v ih =>
    simp only [toBytes, List.length_cons, ih]
    omega
  | case2 a b c => simp only [toBytes, List.length_cons, List.length_nil]
  | case3 a b => simp only [toBytes, List.length_cons, List.length_nil]
  | case4 a => simp only [toBytes, List.length_cons, List.length_nil]
  | case5 => simp only [toBytes, List.length_nil]

/-- **Bytes come back.** -/
theorem toBytes_ofBytes {s : List ℕ} (h : ∀ a ∈ s, a < 256) : toBytes (ofBytes s) = s := by
  induction s using ofBytes.induct with
  | case1 a b c s ih =>
    simp only [List.forall_mem_cons] at h
    obtain ⟨ha, hb, hc, hs⟩ := h
    have h₁ : a / 4 * 4 + (a % 4 * 16 + b / 16) / 16 = a := by omega
    have h₂ : (a % 4 * 16 + b / 16) % 16 * 16 + (b % 16 * 4 + c / 64) / 4 = b := by omega
    have h₃ : (b % 16 * 4 + c / 64) % 4 * 64 + c % 64 = c := by omega
    rw [ofBytes, toBytes, ih hs, h₁, h₂, h₃]
  | case2 a b =>
    simp only [List.forall_mem_cons] at h
    have h₁ : a / 4 * 4 + (a % 4 * 16 + b / 16) / 16 = a := by omega
    have h₂ : (a % 4 * 16 + b / 16) % 16 * 16 + b % 16 * 4 / 4 = b := by omega
    rw [ofBytes, toBytes, h₁, h₂]
  | case3 a =>
    have h₁ : a / 4 * 4 + a % 4 * 16 / 16 = a := by omega
    rw [ofBytes, toBytes, h₁]
  | case4 => rfl

/-- **Sextets come back**, if the unused bits are zeros. -/
theorem ofBytes_toBytes {v : List ℕ} (h : ∀ a ∈ v, a < 64) (hlen : v.length % 4 ≠ 1)
    (hunused : unused v = 0) : ofBytes (toBytes v) = v := by
  induction v using toBytes.induct with
  | case1 a b c d v ih =>
    simp only [List.forall_mem_cons] at h
    obtain ⟨ha, hb, hc, hd, hv⟩ := h
    simp only [List.length_cons] at hlen
    rw [unused_append] at hunused
    have h₁ : (a * 4 + b / 16) / 4 = a := by omega
    have h₂ : (a * 4 + b / 16) % 4 * 16 + (b % 16 * 16 + c / 4) / 16 = b := by omega
    have h₃ : (b % 16 * 16 + c / 4) % 16 * 4 + (c % 4 * 64 + d) / 64 = c := by omega
    have h₄ : (c % 4 * 64 + d) % 64 = d := by omega
    rw [toBytes, ofBytes, ih hv (by omega) hunused, h₁, h₂, h₃, h₄]
  | case2 a b c =>
    simp only [List.forall_mem_cons] at h
    have hc : c % 4 = 0 := hunused
    have h₁ : (a * 4 + b / 16) / 4 = a := by omega
    have h₂ : (a * 4 + b / 16) % 4 * 16 + (b % 16 * 16 + c / 4) / 16 = b := by omega
    have h₃ : (b % 16 * 16 + c / 4) % 16 * 4 = c := by omega
    rw [toBytes, ofBytes, h₁, h₂, h₃]
  | case3 a b =>
    simp only [List.forall_mem_cons] at h
    have hb : b % 16 = 0 := hunused
    have h₁ : (a * 4 + b / 16) / 4 = a := by omega
    have h₂ : (a * 4 + b / 16) % 4 * 16 = b := by omega
    rw [toBytes, ofBytes, h₁, h₂]
  | case4 a => exact absurd rfl hlen
  | case5 => rw [toBytes, ofBytes]

end Sextets

end ChilopodCaster
