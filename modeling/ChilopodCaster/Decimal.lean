import ChilopodCaster.Ip
import Mathlib.Data.List.Induction
import Mathlib.Tactic.Ring

/-!
# Decimal numbers

What `strtoll` and `%d` make of a text, and the digits that are printed for a number. A text of
digits is read as the number it denotes. Any other text may still be read: `strtoll` skips white
space and a sign, and stops at the first character that is no digit.

## Main results

* `strtoll_eq_some` — the digits that were read, where something was
* `strtoll_of_isdigit` — a text of digits
* `decValue_printNat` — a number that is printed is read back
-/

namespace ChilopodCaster

/-! ### Digits -/

theorem decValue_append (s t : CString) :
    decValue (s ++ t) = decValue s * 10 ^ t.length + decValue t := by
  induction t using List.reverseRecOn with
  | nil => rw [List.append_nil, List.length_nil, pow_zero, Nat.mul_one]; rfl
  | append_singleton t c ih =>
    have hlast (r : CString) : decValue (r ++ [c]) = decValue r * 10 + (c.toNat - 48) := by
      rw [decValue, List.foldl_append]
      rfl
    rw [← List.append_assoc, hlast, ih, hlast, List.length_append, List.length_singleton, pow_succ]
    ring

theorem decValue_lt {s : CString} (h : ∀ c ∈ s, isdigit c = true) : decValue s < 10 ^ s.length := by
  induction s with
  | nil => exact Nat.one_pos
  | cons c s ih =>
    have hc : c.toNat - 48 ≤ 9 := by
      have hdigit := of_decide_eq_true (h c List.mem_cons_self)
      omega
    have hs := ih fun d hd => h d (List.mem_cons_of_mem c hd)
    have hcons : decValue (c :: s) = (c.toNat - 48) * 10 ^ s.length + decValue s := by
      rw [← List.singleton_append, decValue_append]
      rw [decValue, List.foldl_cons, List.foldl_nil, Nat.zero_mul, Nat.zero_add]
    rw [hcons, List.length_cons, pow_succ]
    have hmul := Nat.mul_le_mul_right (10 ^ s.length) hc
    omega

theorem isspace_of_isdigit {c : Byte} (h : isdigit c = true) : isspace c = false := by
  revert c
  decide

theorem ne_sign_of_isdigit {c : Byte} (h : isdigit c = true) : c ≠ 45 ∧ c ≠ 43 := by
  revert c
  decide

/-- The number that is stored for the digits read, with their sign. -/
def clamp (n : ℤ) : ℤ := max (-2 ^ 63) (min (2 ^ 63 - 1) n)

theorem clamp_of_bounds {n : ℤ} (hlo : -2 ^ 63 ≤ n) (hhi : n < 2 ^ 63) : clamp n = n := by
  rw [clamp]
  omega

theorem toInt_ofInt_of_bounds {n : ℤ} (hlo : -2 ^ 31 ≤ n) (hhi : n < 2 ^ 31) :
    (BitVec.ofInt 32 n).toInt = n :=
  BitVec.toInt_ofInt_eq_self (by decide) hlo hhi

/-- **What was read.** Some characters were skipped, and then digits were read. -/
theorem strtoll_eq_some {s : CString} {v : ℤ} (h : strtoll s = some v) :
    ∃ lead digits rest, s = lead ++ (digits ++ rest) ∧ digits ≠ [] ∧
      (∀ c ∈ digits, isdigit c = true) ∧
      (v = clamp (decValue digits) ∨ v = clamp (-(decValue digits : ℤ))) := by
  rw [strtoll] at h
  dsimp only at h
  generalize hs₁ : s.dropWhile isspace = s₁ at h
  generalize hs₂ : (if s₁.head? = some 45 ∨ s₁.head? = some 43 then s₁.tail else s₁) = s₂ at h
  obtain ⟨sign, hsign⟩ : ∃ sign, s₁ = sign ++ s₂ := by
    rw [← hs₂]
    split
    · exact ⟨s₁.take 1, by rw [← List.drop_one, List.take_append_drop]⟩
    · exact ⟨[], rfl⟩
  split at h
  · contradiction
  · next hne =>
    refine ⟨s.takeWhile isspace ++ sign, s₂.takeWhile isdigit, s₂.dropWhile isdigit, ?_, hne,
      fun c hc => List.mem_takeWhile_imp hc, ?_⟩
    · rw [List.takeWhile_append_dropWhile, List.append_assoc, ← hsign, ← hs₁,
        List.takeWhile_append_dropWhile]
    · rw [← Option.some.inj h, clamp, clamp]
      split
      · exact Or.inr rfl
      · exact Or.inl rfl

/-- A text of digits is read as the number it denotes, where that is in range. -/
theorem strtoll_of_isdigit {s : CString} (hne : s ≠ []) (h : ∀ c ∈ s, isdigit c = true) :
    strtoll s = some (clamp (decValue s)) := by
  obtain ⟨c, s, rfl⟩ := List.exists_cons_of_ne_nil hne
  have hc := h c List.mem_cons_self
  have hspace : (c :: s).dropWhile isspace = c :: s := by
    rw [List.dropWhile_cons, if_neg (by rw [isspace_of_isdigit hc]; exact Bool.false_ne_true)]
  have hsign (d : Byte) (hd : c ≠ d) : (c :: s).head? ≠ some d :=
    fun heq => hd (Option.some.inj heq)
  have hminus := hsign 45 (ne_sign_of_isdigit hc).1
  have hplus := hsign 43 (ne_sign_of_isdigit hc).2
  have hdigits : (c :: s).takeWhile isdigit = c :: s := List.takeWhile_eq_self_iff.mpr h
  rw [strtoll, hspace]
  dsimp only
  rw [if_neg (not_or.mpr ⟨hminus, hplus⟩), hdigits, if_neg hne, if_neg hminus]
  rfl

/-! ### Numbers that are printed -/

/-- The character of a digit. -/
def digitByte (d : ℕ) : Byte := BitVec.ofNat 8 d.digitChar.toNat

theorem digitByte_lt {d : ℕ} (h : d < 10) :
    isdigit (digitByte d) = true ∧ (digitByte d).toNat - 48 = d := by
  have hall : ∀ d < 10, isdigit (digitByte d) = true ∧ (digitByte d).toNat - 48 = d := by decide
  exact hall d h

theorem printNat_eq (n : ℕ) :
    printNat 10 n =
      if n < 10 then [digitByte n] else printNat 10 (n / 10) ++ [digitByte (n % 10)] := by
  rw [printNat, Nat.toDigits_eq_if (by decide)]
  split
  · rfl
  · rw [List.map_append]
    rfl

theorem isdigit_printNat {n : ℕ} : ∀ c ∈ printNat 10 n, isdigit c = true := by
  induction n using Nat.strongRecOn with
  | ind n ih =>
    intro c hc
    rw [printNat_eq] at hc
    split at hc
    · next hn =>
      rw [List.mem_singleton.mp hc]
      exact (digitByte_lt hn).1
    · rcases List.mem_append.mp hc with hc | hc
      · exact ih (n / 10) (by omega) c hc
      · rw [List.mem_singleton.mp hc]
        exact (digitByte_lt (Nat.mod_lt n (by decide))).1

theorem decValue_printNat (n : ℕ) : decValue (printNat 10 n) = n := by
  induction n using Nat.strongRecOn with
  | ind n ih =>
    have hlast (d : ℕ) (hd : d < 10) : decValue [digitByte d] = d := by
      rw [decValue, List.foldl_cons, List.foldl_nil, (digitByte_lt hd).2, Nat.zero_mul,
        Nat.zero_add]
    rw [printNat_eq]
    split
    · next hn => exact hlast n hn
    · rw [decValue_append, ih (n / 10) (by omega), hlast _ (Nat.mod_lt n (by decide)),
        List.length_singleton, pow_one, Nat.mul_comm]
      exact Nat.div_add_mod n 10

theorem length_printNat_le {n k : ℕ} (hk : 0 < k) : (printNat 10 n).length ≤ k ↔ n < 10 ^ k := by
  rw [printNat, List.length_map]
  exact Nat.length_toDigits_le_iff (by decide) hk

end ChilopodCaster
