import Mathlib.Algebra.Order.Floor.Ring
import Mathlib.Data.Rat.Floor
import Mathlib.Tactic.FieldSimp
import Mathlib.Tactic.Linarith
import Mathlib.Tactic.NormNum
import Mathlib.Tactic.Ring

/-! # Rounding half away from zero

Rounding of rational numbers to integers and to decimal places, and the integer arithmetic
that computes it.
-/
namespace Rounding

/-- The nearest integer; of two, the one farther from zero. -/
def away (q : ℚ) : ℤ := if q < 0 then -⌊-q + 1 / 2⌋ else ⌊q + 1 / 2⌋

def toPlaces (k : ℕ) (q : ℚ) : ℚ := away (q * 10 ^ k) / 10 ^ k

theorem floor_add_half (n : ℤ) : ⌊(n : ℚ) + 1 / 2⌋ = n := by
  rw [Int.floor_eq_iff]
  constructor
  · linarith
  · linarith

theorem away_intCast (n : ℤ) : away n = n := by
  unfold away
  split
  · have h := floor_add_half (-n)
    push_cast at h
    rw [h, neg_neg]
  · exact floor_add_half n

theorem away_neg (q : ℚ) : away (-q) = -away q := by
  unfold away
  rcases lt_trichotomy q 0 with hq | rfl | hq
  · rw [if_neg (by linarith), if_pos hq, neg_neg]
  · norm_num
  · rw [if_pos (by linarith), if_neg (by linarith), neg_neg]

theorem away_mono {q r : ℚ} (h : q ≤ r) : away q ≤ away r := by
  unfold away
  split_ifs with hq hr hr
  · exact neg_le_neg (Int.floor_le_floor (by linarith))
  · have hleft : 0 ≤ ⌊-q + 1 / 2⌋ := Int.floor_nonneg.mpr (by linarith)
    have hright : 0 ≤ ⌊r + 1 / 2⌋ := Int.floor_nonneg.mpr (by linarith)
    omega
  · exact absurd (lt_of_le_of_lt h hr) hq
  · exact Int.floor_le_floor (by linarith)

/-- Nothing is nearer, and a number halfway between two integers goes to the larger one in
magnitude. -/
theorem away_nearest (q : ℚ) :
    |q - away q| ≤ 1 / 2 ∧ (|q - away q| = 1 / 2 → |q| < |(away q : ℚ)|) := by
  wlog hq : 0 ≤ q generalizing q with hflip
  · have h := hflip (-q) (by linarith)
    rw [away_neg] at h
    push_cast at h
    rwa [neg_sub_neg, abs_sub_comm, abs_neg, abs_neg] at h
  have haway : away q = ⌊q + 1 / 2⌋ := if_neg (not_lt.mpr hq)
  have hle := Int.floor_le (q + 1 / 2)
  have hlt := Int.lt_floor_add_one (q + 1 / 2)
  rw [haway]
  constructor
  · rw [abs_le]
    constructor <;> linarith
  · intro htie
    -- the other tie would be below the floor
    have hup : (⌊q + 1 / 2⌋ : ℚ) = q + 1 / 2 := by
      rcases eq_or_eq_neg_of_abs_eq htie with h | h <;> linarith
    rw [hup, abs_of_nonneg hq, abs_of_nonneg (by linarith)]
    linarith

variable {s k d : ℕ}

theorem floor_div_add_half (hd : 0 < d) (m : ℕ) :
    ⌊(m : ℚ) / d + 1 / 2⌋ = ((m + d / 2) / d : ℕ) := by
  have hne : (d : ℚ) ≠ 0 := by
    exact_mod_cast hd.ne'
  have hsum : (m : ℚ) / d + 1 / 2 = ((2 * m + d : ℕ) : ℤ) / ((2 * d : ℕ) : ℚ) := by
    push_cast
    field_simp
  have hhalf : (2 * m + d) / (2 * d) = (m + d / 2) / d := by
    rw [← Nat.div_div_eq_div_mul, Nat.mul_add_div (by decide)]
  rw [hsum, Rat.floor_intCast_div_natCast, ← hhalf]
  rfl

theorem away_div (hd : 0 < d) (n : ℤ) : away (n / d) =
      if n < 0 then -(((n.natAbs + d / 2) / d : ℕ) : ℤ) else ((n.natAbs + d / 2) / d : ℕ) := by
  have hpos : (0 : ℚ) < d := by exact_mod_cast hd
  have hiff : (n : ℚ) / d < 0 ↔ n < 0 := by
    rw [div_lt_iff₀ hpos, zero_mul]
    exact_mod_cast Iff.rfl
  unfold away
  by_cases hneg : n < 0
  · have habs : -((n : ℚ) / d) = (n.natAbs : ℚ) / d := by
      rw [← neg_div, Nat.cast_natAbs, abs_of_neg hneg]
      push_cast
      rfl
    rw [if_pos (hiff.mpr hneg), if_pos hneg, habs, floor_div_add_half hd]
  · have habs : (n : ℚ) / d = (n.natAbs : ℚ) / d := by
      rw [Nat.cast_natAbs, abs_of_nonneg (Int.not_lt.mp hneg)]
    rw [if_neg (mt hiff.mp hneg), if_neg hneg, habs, floor_div_add_half hd]

theorem toPlaces_of_le (h : s ≤ k) (n : ℤ) : toPlaces k (n / 10 ^ s) = n / 10 ^ s := by
  have hpow : (10 : ℚ) ^ k = 10 ^ (k - s) * 10 ^ s := by rw [← pow_add, Nat.sub_add_cancel h]
  have hscaled : (n : ℚ) / 10 ^ s * 10 ^ k = ((n * 10 ^ (k - s) : ℤ) : ℚ) := by
    rw [hpow]
    push_cast
    field_simp
  rw [toPlaces, hscaled, away_intCast, hpow]
  push_cast
  field_simp

theorem div_mul_pow_of_lt (h : k < s) (q : ℚ) : q / 10 ^ s * 10 ^ k = q / 10 ^ (s - k) := by
  have hpow : (10 : ℚ) ^ s = 10 ^ (s - k) * 10 ^ k := by
    rw [← pow_add, Nat.sub_add_cancel (Nat.le_of_lt h)]
  rw [hpow]
  field_simp

theorem toPlaces_of_lt (h : k < s) (n : ℤ) :
    toPlaces k (n / 10 ^ s) = away (n / (10 ^ (s - k) : ℕ)) / 10 ^ k := by
  rw [toPlaces, div_mul_pow_of_lt h]
  push_cast
  rfl

end Rounding
