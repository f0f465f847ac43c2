import Mathlib

/-!
# Rounding to a number of significant bits

Whole numbers are rounded to the nearest one of which only the first `p` bits are not zero, and a tie goes to the one
whose last kept bit is zero. Rounding keeps the order.
-/

namespace Rounding

variable {p m n : Nat}

/-- The weight of the last bit that is kept. -/
def unit (p m : Nat) : Nat := 2 ^ (m.log2 + 1 - p)

/-- A magnitude, rounded. -/
def roundNat (p m : Nat) : Nat :=
  let low := m / unit p m
  let rest := m % unit p m
  if 2 * rest < unit p m ∨ 2 * rest = unit p m ∧ low % 2 = 0 then low * unit p m else (low + 1) * unit p m

/-- A whole number, rounded. -/
def round (p : Nat) (i : Int) : Int := if i < 0 then -(roundNat p i.natAbs : Int) else roundNat p i.natAbs

theorem unit_pos : 0 < unit p m := Nat.two_pow_pos _

theorem roundNat_lower : m / unit p m * unit p m ≤ roundNat p m := by
  simp only [roundNat]
  split
  · rfl
  · exact Nat.mul_le_mul_right _ (Nat.le_succ _)

theorem roundNat_upper : roundNat p m ≤ (m / unit p m + 1) * unit p m := by
  simp only [roundNat]
  split
  · exact Nat.mul_le_mul_right _ (Nat.le_succ _)
  · rfl

theorem unit_dvd_roundNat : unit p m ∣ roundNat p m := by
  simp only [roundNat]
  split
  · exact Nat.dvd_mul_left ..
  · exact Nat.dvd_mul_left ..

theorem roundNat_zero : roundNat p 0 = 0 := by simp [roundNat, unit_pos]

/-- What has few enough bits stays as it is. -/
theorem roundNat_small (h : m.log2 < p) : roundNat p m = m := by
  have hunit : unit p m = 1 := by simp [unit, Nat.sub_eq_zero_of_le (Nat.succ_le_of_lt h)]
  simp [roundNat, hunit, Nat.mod_one]

/-- Rounding goes up to the next power of two at most. -/
theorem roundNat_le_pow : roundNat p m ≤ 2 ^ (m.log2 + 1) := by
  obtain ⟨k, hk⟩ : unit p m ∣ 2 ^ (m.log2 + 1) := Nat.pow_dvd_pow 2 (Nat.sub_le ..)
  have hlt : m / unit p m < k := by
    rw [Nat.div_lt_iff_lt_mul unit_pos, Nat.mul_comm, ← hk]
    exact Nat.lt_log2_self
  calc roundNat p m ≤ (m / unit p m + 1) * unit p m := roundNat_upper
    _ ≤ k * unit p m := Nat.mul_le_mul_right _ hlt
    _ = 2 ^ (m.log2 + 1) := by rw [hk, Nat.mul_comm]

/-- Rounding goes down to the last power of two at most. -/
theorem pow_le_roundNat (hp : 0 < p) (hm : m ≠ 0) : 2 ^ m.log2 ≤ roundNat p m := by
  obtain ⟨k, hk⟩ : unit p m ∣ 2 ^ m.log2 := Nat.pow_dvd_pow 2 (by omega)
  have hle : k ≤ m / unit p m := by
    rw [Nat.le_div_iff_mul_le unit_pos, Nat.mul_comm, ← hk]
    exact Nat.log2_self_le hm
  calc 2 ^ m.log2 = k * unit p m := by rw [hk, Nat.mul_comm]
    _ ≤ m / unit p m * unit p m := Nat.mul_le_mul_right _ hle
    _ ≤ roundNat p m := roundNat_lower

theorem roundNat_eq_zero (hp : 0 < p) : roundNat p m = 0 ↔ m = 0 := by
  constructor
  · intro h
    by_contra hm
    have := pow_le_roundNat hp hm
    have := Nat.two_pow_pos m.log2
    omega
  · rintro rfl
    exact roundNat_zero

/-- Of two numbers with the same weight. -/
theorem roundNat_mono_unit (hu : unit p m = unit p n) (h : m ≤ n) : roundNat p m ≤ roundNat p n := by
  rcases Nat.lt_or_ge (m / unit p m) (n / unit p n) with hlow | hlow
  · calc roundNat p m ≤ (m / unit p m + 1) * unit p m := roundNat_upper
      _ ≤ n / unit p n * unit p n := by
          rw [hu] at hlow ⊢
          exact Nat.mul_le_mul_right _ hlow
      _ ≤ roundNat p n := roundNat_lower
  · have hsame : m / unit p n = n / unit p n := by
      rw [hu] at hlow
      exact Nat.le_antisymm (Nat.div_le_div_right h) hlow
    have hrest : m % unit p n ≤ n % unit p n := by
      have := Nat.div_add_mod m (unit p n)
      have := Nat.div_add_mod n (unit p n)
      rw [hsame] at *
      omega
    simp only [roundNat, hu, hsame]
    split
    · split
      · rfl
      · exact Nat.mul_le_mul_right _ (Nat.le_succ _)
    · rw [if_neg (by omega)]

theorem roundNat_mono (hp : 0 < p) (h : m ≤ n) : roundNat p m ≤ roundNat p n := by
  by_cases hm : m = 0
  · simp [hm, roundNat_zero]
  have hlog : m.log2 ≤ n.log2 := by
    rw [Nat.le_log2 (by omega)]
    exact Nat.le_trans (Nat.log2_self_le hm) h
  rcases Nat.lt_or_eq_of_le hlog with hlt | heq
  · calc roundNat p m ≤ 2 ^ (m.log2 + 1) := roundNat_le_pow
      _ ≤ 2 ^ n.log2 := Nat.pow_le_pow_right (by decide) hlt
      _ ≤ roundNat p n := pow_le_roundNat hp (by omega)
  · exact roundNat_mono_unit (by simp [unit, heq]) h

theorem round_mono (hp : 0 < p) {i j : Int} (h : i ≤ j) : round p i ≤ round p j := by
  simp only [round]
  split
  · split
    · have := roundNat_mono hp (show j.natAbs ≤ i.natAbs by omega)
      omega
    · omega
  · rw [if_neg (by omega)]
    have := roundNat_mono hp (show i.natAbs ≤ j.natAbs by omega)
    omega

theorem round_eq_zero (hp : 0 < p) {i : Int} : round p i = 0 ↔ i = 0 := by
  have h := @roundNat_eq_zero p i.natAbs hp
  simp only [round]
  split <;> omega

/-- Numbers of which the roundings differ are in their order. -/
theorem round_lt_iff (hp : 0 < p) {i j : Int} (h : round p i ≠ round p j) : round p i < round p j ↔ i < j := by
  constructor
  · intro hlt
    by_contra hle
    exact absurd (round_mono hp (Int.not_lt.1 hle)) (by omega)
  · intro hlt
    exact lt_of_le_of_ne (round_mono hp hlt.le) h

/-! ## Floating point formats -/

/-- A magnitude with `p` significant bits at most. -/
def Fits (p m : Nat) : Prop := 2 ^ m.log2 ∣ m * 2 ^ (p - 1)

/-- The exponent with a bias and, behind it, the bits of the significand but for the first. -/
def encodeNat (p bias m : Nat) : Nat :=
  if m = 0 then 0 else (m.log2 + bias) * 2 ^ (p - 1) + (m * 2 ^ (p - 1) / 2 ^ m.log2 - 2 ^ (p - 1))

theorem roundNat_fits (hp : 0 < p) : Fits p (roundNat p m) := by
  by_cases hm : m = 0
  · simp [hm, roundNat_zero, Fits]
  have hlower := pow_le_roundNat hp hm
  have hne : roundNat p m ≠ 0 := by
    have := Nat.two_pow_pos m.log2
    omega
  have hle : m.log2 ≤ (roundNat p m).log2 := (Nat.le_log2 hne).2 hlower
  rcases Nat.lt_or_eq_of_le (@roundNat_le_pow p m) with hlt | htop
  · have hlog : (roundNat p m).log2 = m.log2 := Nat.le_antisymm (Nat.lt_succ_iff.1 ((Nat.log2_lt hne).2 hlt)) hle
    have hpow : 2 ^ m.log2 ∣ unit p m * 2 ^ (p - 1) := by
      rw [unit, ← Nat.pow_add]
      exact Nat.pow_dvd_pow 2 (by omega)
    rw [Fits, hlog]
    exact hpow.trans (Nat.mul_dvd_mul_right unit_dvd_roundNat _)
  · rw [Fits, htop, Nat.log2_two_pow]
    exact Nat.dvd_mul_right ..

theorem significand_bounds (hm : m ≠ 0) :
    2 ^ (p - 1) ≤ m * 2 ^ (p - 1) / 2 ^ m.log2 ∧ m * 2 ^ (p - 1) / 2 ^ m.log2 < 2 * 2 ^ (p - 1) := by
  have hlow := Nat.mul_le_mul_right (2 ^ (p - 1)) (Nat.log2_self_le hm)
  have hhigh : m * 2 ^ (p - 1) < 2 ^ (m.log2 + 1) * 2 ^ (p - 1) :=
    Nat.mul_lt_mul_of_pos_right Nat.lt_log2_self (Nat.two_pow_pos _)
  rw [Nat.pow_succ] at hhigh
  constructor
  · rw [Nat.le_div_iff_mul_le (Nat.two_pow_pos _), Nat.mul_comm]
    exact hlow
  · rw [Nat.div_lt_iff_lt_mul (Nat.two_pow_pos _)]
    linarith

theorem encodeNat_bounds {bias : Nat} (hm : m ≠ 0) :
    (m.log2 + bias) * 2 ^ (p - 1) ≤ encodeNat p bias m ∧ encodeNat p bias m < (m.log2 + 1 + bias) * 2 ^ (p - 1) := by
  obtain ⟨hlow, hhigh⟩ := @significand_bounds p m hm
  have hsucc : (m.log2 + 1 + bias) * 2 ^ (p - 1) = (m.log2 + bias) * 2 ^ (p - 1) + 2 ^ (p - 1) := by ring
  rw [encodeNat, if_neg hm, hsucc]
  omega

theorem encodeNat_lt {bias : Nat} (hbias : 0 < bias) (hm : Fits p m) (hn : Fits p n) (h : m < n) :
    encodeNat p bias m < encodeNat p bias n := by
  have hn0 : n ≠ 0 := by omega
  have hlow := (@encodeNat_bounds p n bias hn0).1
  by_cases hm0 : m = 0
  · have hpos : 0 < (n.log2 + bias) * 2 ^ (p - 1) := Nat.mul_pos (by omega) (Nat.two_pow_pos _)
    rw [encodeNat, if_pos hm0]
    omega
  have hlog : m.log2 ≤ n.log2 := (Nat.le_log2 hn0).2 (Nat.le_trans (Nat.log2_self_le hm0) h.le)
  rcases Nat.lt_or_eq_of_le hlog with hlt | heq
  · have hstep : (m.log2 + 1 + bias) * 2 ^ (p - 1) ≤ (n.log2 + bias) * 2 ^ (p - 1) :=
      Nat.mul_le_mul_right _ (by omega)
    exact Nat.lt_of_lt_of_le (encodeNat_bounds hm0).2 (hstep.trans hlow)
  · obtain ⟨a, ha⟩ := hm
    obtain ⟨b, hb⟩ := hn
    have hbounds := @significand_bounds p m hm0
    rw [← heq] at hb
    have hab : a < b := by
      have := Nat.mul_lt_mul_of_pos_right h (Nat.two_pow_pos (p - 1))
      rw [ha, hb] at this
      exact Nat.lt_of_mul_lt_mul_left this
    rw [ha, Nat.mul_div_cancel_left _ (Nat.two_pow_pos _)] at hbounds
    rw [encodeNat, encodeNat, if_neg hm0, if_neg hn0, ← heq, ha, hb, Nat.mul_div_cancel_left _ (Nat.two_pow_pos _),
      Nat.mul_div_cancel_left _ (Nat.two_pow_pos _)]
    omega

end Rounding
