import Aivm.Lib.Rounding
import Aivm.Machine.Scalars

/-!
# Whole numbers as doubles

The conversion of `int64_t` to `double` rounds to 53 significant bits, and `==` and `<` compare the rounded numbers. The
binary64 format is one in which they do.
-/

namespace Aivm

open Rounding

/-- Conversion and comparison round whole numbers. -/
structure FloatOps.RoundsInts (ops : FloatOps) : Prop where
  eq : ∀ a b : Int64, ops.eq (ops.ofInt a.toInt) (ops.ofInt b.toInt) = decide (round 53 a.toInt = round 53 b.toInt)
  lt : ∀ a b : Int64, ops.lt (ops.ofInt a.toInt) (ops.ofInt b.toInt) = decide (round 53 a.toInt < round 53 b.toInt)

/-! ## The format -/

/-- The magnitude of a converted number. -/
def doubleMagnitude (i : Int) : Nat := encodeNat 53 1023 (roundNat 53 i.natAbs)

/-- The conversion of a whole number. -/
def doubleOfInt (i : Int) : UInt64 := UInt64.ofNat (if i < 0 then 2 ^ 63 + doubleMagnitude i else doubleMagnitude i)

/-- The place of a number in their order. -/
def doubleKey (x : UInt64) : Int := if x.toNat < 2 ^ 63 then x.toNat else -(x.toNat - 2 ^ 63 : Nat)

def doubleIsNan (x : UInt64) : Bool := 0x7FF0000000000000 < x.toNat % 2 ^ 63

/-- Conversion and comparison as binary64 has them. -/
def FloatOps.binary64 : FloatOps :=
  { FloatOps.whole with
    ofInt := doubleOfInt
    lt := fun x y => ¬ doubleIsNan x ∧ ¬ doubleIsNan y ∧ doubleKey x < doubleKey y
    eq := fun x y => ¬ doubleIsNan x ∧ ¬ doubleIsNan y ∧ doubleKey x = doubleKey y }

theorem doubleMagnitude_lt {i : Int} (h : i.natAbs ≤ 2 ^ 63) : doubleMagnitude i < 0x7FF0000000000000 := by
  have hle : roundNat 53 i.natAbs ≤ 2 ^ 64 := by
    refine Nat.le_trans roundNat_le_pow (Nat.pow_le_pow_right (by decide) ?_)
    by_cases h0 : i.natAbs = 0
    · simp [h0]
    · have hlog : i.natAbs.log2 < 64 := (Nat.log2_lt h0).2 (by omega)
      exact hlog
  by_cases h0 : roundNat 53 i.natAbs = 0
  · simp [doubleMagnitude, encodeNat, h0]
  · have hlog : (roundNat 53 i.natAbs).log2 < 65 := (Nat.log2_lt h0).2 (by omega)
    have hupper := (@encodeNat_bounds 53 _ 1023 h0).2
    have htop : ((roundNat 53 i.natAbs).log2 + 1 + 1023) * 2 ^ (53 - 1) ≤ 1088 * 2 ^ (53 - 1) :=
      Nat.mul_le_mul_right _ (by omega)
    exact Nat.lt_of_lt_of_le hupper (Nat.le_trans htop (by decide))

theorem doubleKey_ofInt {i : Int} (h : i.natAbs ≤ 2 ^ 63) :
    doubleKey (doubleOfInt i) = (if i < 0 then -(doubleMagnitude i : Int) else doubleMagnitude i) ∧
      doubleIsNan (doubleOfInt i) = false := by
  have hlt := doubleMagnitude_lt h
  by_cases hi : i < 0
  · have hval : (doubleOfInt i).toNat = 2 ^ 63 + doubleMagnitude i := by
      simp only [doubleOfInt, hi, if_true, UInt64.toNat_ofNat']
      omega
    simp only [doubleKey, doubleIsNan, hval, hi, if_true]
    refine ⟨?_, ?_⟩
    · rw [if_neg (by omega)]
      omega
    · simp only [decide_eq_false_iff_not]
      omega
  · have hval : (doubleOfInt i).toNat = doubleMagnitude i := by
      simp only [doubleOfInt, hi, if_false, UInt64.toNat_ofNat']
      omega
    simp only [doubleKey, doubleIsNan, hval, hi, if_false]
    refine ⟨?_, ?_⟩
    · rw [if_pos (by omega)]
    · simp only [decide_eq_false_iff_not]
      omega

theorem encodeNat_lt_iff {a b : Nat} (ha : Rounding.Fits 53 a) (hb : Rounding.Fits 53 b) :
    encodeNat 53 1023 a < encodeNat 53 1023 b ↔ a < b := by
  constructor
  · intro h
    by_contra hle
    rcases Nat.lt_or_eq_of_le (Nat.le_of_not_lt hle) with hlt | rfl
    · exact absurd (encodeNat_lt (by decide) hb ha hlt) (Nat.lt_asymm h)
    · exact absurd h (Nat.lt_irrefl _)
  · exact encodeNat_lt (by decide) ha hb

/-- Converted numbers are in the order of the rounded ones. -/
theorem doubleKey_lt_iff {i j : Int} (hi : i.natAbs ≤ 2 ^ 63) (hj : j.natAbs ≤ 2 ^ 63) :
    doubleKey (doubleOfInt i) < doubleKey (doubleOfInt j) ↔ round 53 i < round 53 j := by
  have hfits : ∀ i : Int, Rounding.Fits 53 (roundNat 53 i.natAbs) := fun i => roundNat_fits (by decide)
  have hij := encodeNat_lt_iff (hfits i) (hfits j)
  have hji := encodeNat_lt_iff (hfits j) (hfits i)
  have hzero : ∀ i : Int, encodeNat 53 1023 (roundNat 53 i.natAbs) = 0 ↔ roundNat 53 i.natAbs = 0 := by
    intro i
    constructor
    · intro h
      by_contra hne
      have := (@encodeNat_bounds 53 _ 1023 hne).1
      have : 0 < ((roundNat 53 i.natAbs).log2 + 1023) * 2 ^ (53 - 1) := Nat.mul_pos (by omega) (Nat.two_pow_pos _)
      omega
    · intro h
      simp [h, encodeNat]
  have hi0 := hzero i
  have hj0 := hzero j
  rw [(doubleKey_ofInt hi).1, (doubleKey_ofInt hj).1]
  simp only [Rounding.round, doubleMagnitude]
  split <;> split <;> omega

theorem binary64_roundsInts : FloatOps.binary64.RoundsInts := by
  have hrange : ∀ a : Int64, a.toInt.natAbs ≤ 2 ^ 63 := by
    intro a
    have := a.le_toInt
    have := a.toInt_lt
    omega
  refine ⟨fun a b => ?_, fun a b => ?_⟩
  · have hab := doubleKey_lt_iff (hrange a) (hrange b)
    have hba := doubleKey_lt_iff (hrange b) (hrange a)
    simp only [FloatOps.binary64, (doubleKey_ofInt (hrange a)).2, (doubleKey_ofInt (hrange b)).2]
    simp only [Bool.false_eq_true, not_false_eq_true, true_and, decide_eq_decide]
    omega
  · simp only [FloatOps.binary64, (doubleKey_ofInt (hrange a)).2, (doubleKey_ofInt (hrange b)).2]
    simp only [Bool.false_eq_true, not_false_eq_true, true_and, decide_eq_decide]
    exact doubleKey_lt_iff (hrange a) (hrange b)

end Aivm
