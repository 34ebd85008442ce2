import MysqlRust.Foundation.Rounding
import MysqlRust.Query.ValueOrder

/-! # Decimals brought to another scale

More places multiply, fewer places round half away from zero. Both are done on the digits, in
64 bits.
-/
namespace MysqlRust

open Outcome

section
variable {n : Int}

def FitsI64 (n : Int) : Prop := Int64.minValue.toInt ≤ n ∧ n ≤ Int64.maxValue.toInt
  deriving Decidable

theorem toInt_of_checkedI64 {m : Int64} (h : checkedI64 n = some m) : m.toInt = n := by
  rw [checkedI64, minValue_toInt, maxValue_toInt] at h
  split_ifs at h with hrange
  cases h
  exact Int64.toInt_ofInt_of_le (by omega) (by omega)

theorem checkedI64_of_fits (h : FitsI64 n) : checkedI64 n = some (Int64.ofInt n) :=
  if_pos h

theorem checkedI64_of_not_fits (h : ¬ FitsI64 n) : checkedI64 n = none := if_neg h

theorem toInt_ofInt_of_fits (h : FitsI64 n) : (Int64.ofInt n).toInt = n :=
  toInt_of_checkedI64 (checkedI64_of_fits h)

theorem fitsI64_toInt (n : Int64) : FitsI64 n.toInt := by
  have hle := Int64.le_toInt n
  have hlt := Int64.toInt_lt n
  rw [FitsI64, minValue_toInt, maxValue_toInt]
  omega

variable {unscaled : Int64} {s k : UInt8}
variable {d : Nat} {r : Int64} {name : String}

def Rescales (unscaled : Int64) (s k : UInt8) : Prop :=
  if s ≤ k then k.toNat - s.toNat < 19 ∧
    Int64.minValue.toInt ≤ unscaled.toInt * 10 ^ (k.toNat - s.toNat) ∧
    unscaled.toInt * 10 ^ (k.toNat - s.toNat) ≤ Int64.maxValue.toInt
  else s.toNat - k.toNat < 20
  deriving Decidable

theorem checkedU64_pow (d : Nat) :
    checkedU64 (10 ^ d) = if d < 20 then some (UInt64.ofNat (10 ^ d)) else none := by
  rw [checkedU64]
  by_cases hd : d < 20
  · have hle : 10 ^ d ≤ 10 ^ 19 := Nat.pow_le_pow_right (by decide) (by omega)
    rw [if_pos hd, if_pos (by simp only [UInt64.size]; omega)]
  · have hle : 10 ^ 20 ≤ 10 ^ d := Nat.pow_le_pow_right (by decide) (by omega)
    rw [if_neg hd, if_neg (by simp only [UInt64.size]; omega)]

theorem rescaleDecimal_widen (h : s ≤ k) (name : String) : rescaleDecimal unscaled s k name =
      if k.toNat - s.toNat < 19 then okOr (decimalOutOfRange name)
        (checkedI64 (unscaled.toInt * 10 ^ (k.toNat - s.toNat)))
      else .err (decimalOutOfRange name) := by
  rw [rescaleDecimal, if_pos h, checkedI64_pow]
  split_ifs with hd
  · have hle : (10 : Int) ^ (k.toNat - s.toNat) ≤ 10 ^ 18 := pow_le_pow_right₀ (by decide) (by omega)
    have hpos : (0 : Int) < 10 ^ (k.toNat - s.toNat) := by positivity
    rw [okOr, ok_bind, Int64.toInt_ofInt_of_le (by omega) (by omega)]
  · rfl

/-- Half the divisor is added to the magnitude, which stays within 64 bits. -/
theorem toNat_rounded (hd : d < 20) (unscaled : Int64) :
    ((UInt64.ofNat unscaled.toInt.natAbs + UInt64.ofNat (10 ^ d) / 2) /
      UInt64.ofNat (10 ^ d)).toNat = (unscaled.toInt.natAbs + 10 ^ d / 2) / 10 ^ d := by
  have hle := Int64.le_toInt unscaled
  have hlt := Int64.toInt_lt unscaled
  have hpow : 10 ^ d ≤ 10 ^ 19 := Nat.pow_le_pow_right (by decide) (by omega)
  have hmagnitude : (UInt64.ofNat unscaled.toInt.natAbs).toNat = unscaled.toInt.natAbs :=
    UInt64.toNat_ofNat_of_lt' (by simp only [UInt64.size]; omega)
  have hdivisor : (UInt64.ofNat (10 ^ d)).toNat = 10 ^ d :=
    UInt64.toNat_ofNat_of_lt' (by simp only [UInt64.size]; omega)
  have htwo : (2 : UInt64).toNat = 2 := rfl
  rw [UInt64.toNat_div, UInt64.toNat_add, UInt64.toNat_div, hmagnitude, hdivisor, htwo,
    Nat.mod_eq_of_lt (by omega)]

theorem rounded_le (hd : 0 < d) (unscaled : Int64) :
    (((unscaled.toInt.natAbs + 10 ^ d / 2) / 10 ^ d : Nat) : Int) ≤ Int64.maxValue.toInt := by
  have hle := Int64.le_toInt unscaled
  have hlt := Int64.toInt_lt unscaled
  have hten : 10 ≤ 10 ^ d := Nat.le_self_pow (by omega) 10
  have hdiv : (unscaled.toInt.natAbs + 10 ^ d / 2) / 10 ^ d ≤ unscaled.toInt.natAbs / 10 + 1 :=
    calc (unscaled.toInt.natAbs + 10 ^ d / 2) / 10 ^ d
        ≤ (unscaled.toInt.natAbs + 10 ^ d) / 10 ^ d := Nat.div_le_div_right (by omega)
      _ = unscaled.toInt.natAbs / 10 ^ d + 1 := Nat.add_div_right _ (by omega)
      _ ≤ unscaled.toInt.natAbs / 10 + 1 := by
        have hmono : unscaled.toInt.natAbs / 10 ^ d ≤ unscaled.toInt.natAbs / 10 :=
          Nat.div_le_div_left hten (by decide)
        omega
  rw [maxValue_toInt]
  omega

/-- Dropping places rounds half away from zero. -/
theorem rescaleDecimal_narrow (unscaled : Int64) (h : ¬ s ≤ k) (name : String) :
    ∃ n : Int64, n.toInt = Rounding.away (unscaled.toInt / (10 ^ (s.toNat - k.toNat) : Nat)) ∧
      rescaleDecimal unscaled s k name =
        if s.toNat - k.toNat < 20 then .ok n else .err (decimalOutOfRange name) := by
  have hlt : k.toNat < s.toNat := Nat.not_le.mp (mt UInt8.le_iff_toNat_le.mpr h)
  have hbound := rounded_le (d := s.toNat - k.toNat) (by omega) unscaled
  have hneg : unscaled < 0 ↔ unscaled.toInt < 0 := Int64.lt_iff_toInt_lt
  rw [Rounding.away_div (by positivity)]
  generalize hround : (unscaled.toInt.natAbs + 10 ^ (s.toNat - k.toNat) / 2) /
    10 ^ (s.toNat - k.toNat) = rounded at hbound ⊢
  rw [maxValue_toInt] at hbound
  have hmagnitude : (Int64.ofInt rounded).toInt = rounded :=
    Int64.toInt_ofInt_of_le (by omega) (by omega)
  refine ⟨if unscaled < 0 then -Int64.ofInt rounded else Int64.ofInt rounded, ?_, ?_⟩
  · by_cases hsign : unscaled < 0
    · rw [if_pos hsign, if_pos (hneg.mp hsign), Int64.toInt_neg, hmagnitude,
        Int.bmod_eq_of_le (by omega) (by omega)]
    · rw [if_neg hsign, if_neg (mt hneg.mpr hsign), hmagnitude]
  · rw [rescaleDecimal, if_neg h, checkedU64_pow]
    by_cases hd : s.toNat - k.toNat < 20
    · have hchecked : checkedI64 rounded = some (Int64.ofInt rounded) := by
        rw [checkedI64, minValue_toInt, maxValue_toInt, if_pos (by omega)]
      rw [if_pos hd, if_pos hd, okOr, ok_bind]
      dsimp only
      rw [toNat_rounded hd, hround, hchecked, okOr, ok_bind, pure_eq]
    · rw [if_neg hd, if_neg hd]
      rfl

/-- A number that can be rescaled is rounded to the places; any other is out of range. -/
theorem rescaleDecimal_eq (unscaled : Int64) (s k : UInt8) (name : String) :
    (Rescales unscaled s k → ∃ n, rescaleDecimal unscaled s k name = .ok n ∧
      decimalNumber n k = Rounding.toPlaces k.toNat (decimalNumber unscaled s)) ∧
    (¬ Rescales unscaled s k → rescaleDecimal unscaled s k name = .err (decimalOutOfRange name)) := by
  by_cases h : s ≤ k
  · have hle : s.toNat ≤ k.toNat := UInt8.le_iff_toNat_le.mp h
    rw [Rescales, if_pos h, rescaleDecimal_widen h]
    constructor
    · rintro ⟨hd, hrange⟩
      have hchecked : checkedI64 (unscaled.toInt * 10 ^ (k.toNat - s.toNat)) = some _ :=
        if_pos hrange
      refine ⟨_, by rw [if_pos hd, hchecked, okOr], ?_⟩
      rw [decimalNumber, toInt_of_checkedI64 hchecked, decimalNumber, Rounding.toPlaces_of_le hle]
      have hpow : (10 : ℚ) ^ k.toNat = 10 ^ (k.toNat - s.toNat) * 10 ^ s.toNat := by
        rw [← pow_add, Nat.sub_add_cancel hle]
      rw [hpow]
      push_cast
      field_simp
    · intro hnot
      by_cases hd : k.toNat - s.toNat < 19
      · have hchecked : checkedI64 (unscaled.toInt * 10 ^ (k.toNat - s.toNat)) = none :=
          if_neg fun hrange => hnot ⟨hd, hrange⟩
        rw [if_pos hd, hchecked, okOr]
      · rw [if_neg hd]
  · have hlt : k.toNat < s.toNat := Nat.not_le.mp (mt UInt8.le_iff_toNat_le.mpr h)
    obtain ⟨n, hn, hrescale⟩ := rescaleDecimal_narrow unscaled h name
    rw [Rescales, if_neg h, hrescale]
    constructor
    · intro hd
      refine ⟨n, if_pos hd, ?_⟩
      rw [decimalNumber, decimalNumber, Rounding.toPlaces_of_lt hlt, hn]
    · intro hd
      rw [if_neg hd]

theorem rescaleDecimal_same (n : Int64) (s : UInt8) (name : String) :
    rescaleDecimal n s s name = .ok n := by
  rw [rescaleDecimal_widen (UInt8.le_refl s), Nat.sub_self, if_pos (by decide), pow_zero, mul_one,
    checkedI64_of_fits (fitsI64_toInt n), Int64.ofInt_toInt, okOr]

theorem decimalNumber_eq_toPlaces {n : Int64} {q : ℚ} :
    decimalNumber n k = Rounding.toPlaces k.toNat q ↔
      n.toInt = Rounding.away (q * 10 ^ k.toNat) := by
  have hpow : (10 : ℚ) ^ k.toNat ≠ 0 := by positivity
  rw [decimalNumber, Rounding.toPlaces, div_left_inj' hpow, Int.cast_inj]

theorem rescaleDecimal_eq_ok_iff : rescaleDecimal unscaled s k name = .ok r ↔
      Rescales unscaled s k ∧ r.toInt = Rounding.away (decimalNumber unscaled s * 10 ^ k.toNat) := by
  obtain ⟨hok, herr⟩ := rescaleDecimal_eq unscaled s k name
  by_cases h : Rescales unscaled s k
  · obtain ⟨n, hn, hnumber⟩ := hok h
    rw [decimalNumber_eq_toPlaces] at hnumber
    rw [hn, ok.injEq, ← hnumber, Int64.toInt_inj, eq_comm]
    exact (and_iff_right h).symm
  · rw [herr h]
    exact iff_of_false nofun fun hr => h hr.1

theorem toInt_neg_of_ne {u : Int64} (hu : u ≠ Int64.minValue) : (-u).toInt = -u.toInt := by
  have hle := Int64.le_toInt u
  have hlt := Int64.toInt_lt u
  have hne : u.toInt ≠ -2 ^ 63 := fun h => hu (Int64.toInt_inj.mp (h.trans minValue_toInt.symm))
  rw [Int64.toInt_neg, Int.bmod_eq_of_le (by omega) (by omega)]

theorem decimalNumber_neg (hu : unscaled ≠ Int64.minValue) (s : UInt8) :
    decimalNumber (-unscaled) s = -decimalNumber unscaled s := by
  rw [decimalNumber, decimalNumber, toInt_neg_of_ne hu]
  push_cast
  rw [neg_div]

/-- The least number has no negation in 64 bits, but no product with a power of ten is it. -/
theorem rescales_neg (hu : unscaled ≠ Int64.minValue) (h : Rescales unscaled s k) :
    Rescales (-unscaled) s k := by
  unfold Rescales at h ⊢
  split_ifs at h ⊢ with hle
  · obtain ⟨hd, hmin, hmax⟩ := h
    refine ⟨hd, ?_⟩
    have hne : unscaled.toInt ≠ -2 ^ 63 := fun h => hu (Int64.toInt_inj.mp (h.trans minValue_toInt.symm))
    have hproduct : unscaled.toInt * 10 ^ (k.toNat - s.toNat) ≠ -2 ^ 63 := by
      cases hdiff : k.toNat - s.toNat with
      | zero => simpa using hne
      | succ d =>
        rw [pow_succ, ← mul_assoc]
        omega
    rw [minValue_toInt, maxValue_toInt] at *
    rw [toInt_neg_of_ne hu, neg_mul]
    omega
  · exact h

theorem decimalNumber_rescaled (hle : s ≤ k) (h : rescaleDecimal unscaled s k name = .ok r) :
    decimalNumber r k = decimalNumber unscaled s := by
  rw [decimalNumber_eq_toPlaces.mpr (rescaleDecimal_eq_ok_iff.mp h).2]
  exact Rounding.toPlaces_of_le (UInt8.le_iff_toNat_le.mp hle) unscaled.toInt

theorem rescales_back (hle : s ≤ k) (h : Rescales unscaled s k) (r : Int64) : Rescales r k s := by
  rw [Rescales, if_pos hle] at h
  unfold Rescales
  split_ifs with hge
  · obtain rfl : s = k := UInt8.le_antisymm hle hge
    have hmin := Int64.le_toInt r
    have hmax := Int64.toInt_lt r
    rw [minValue_toInt, maxValue_toInt, Nat.sub_self, pow_zero, mul_one]
    omega
  · exact Nat.lt_succ_of_lt h.1

/-- Rescaling never panics, and half the divisor can be added to every magnitude. Where it
returns a number, more places keep the value, and fewer places round it to the nearest, halves
away from zero; it commutes with the sign, keeps the order, and gives the number back when the
scale is widened and narrowed again. -/
theorem rescaleDecimal_sound (s k : UInt8) (name : String) :
    (∀ u, rescaleDecimal u s k name ≠ .panic) ∧
    (∀ u : Int64, s.toNat - k.toNat < 20 →
      u.toInt.natAbs + 10 ^ (s.toNat - k.toNat) / 2 < UInt64.size) ∧
    ∀ u r, rescaleDecimal u s k name = .ok r → (s ≤ k → decimalNumber r k = decimalNumber u s) ∧
      (k < s →
        |(u.toInt : ℚ) / 10 ^ (s.toNat - k.toNat) - r.toInt| ≤ 1 / 2 ∧
        (|(u.toInt : ℚ) / 10 ^ (s.toNat - k.toNat) - r.toInt| = 1 / 2 →
          |(u.toInt : ℚ) / 10 ^ (s.toNat - k.toNat)| < |(r.toInt : ℚ)|)) ∧
      (u ≠ Int64.minValue → rescaleDecimal (-u) s k name = .ok (-r)) ∧
      (∀ v r', u ≤ v → rescaleDecimal v s k name = .ok r' → r ≤ r') ∧
      (s ≤ k → rescaleDecimal r k s name = .ok u) := by
  refine ⟨?_, ?_, ?_⟩
  · intro u hpanic
    have hpost := rescaleDecimal_post u s k name
    rw [hpanic] at hpost
    exact hpost
  · intro u hd
    have hpow : 10 ^ (s.toNat - k.toNat) ≤ 10 ^ 19 := Nat.pow_le_pow_right (by decide) (by omega)
    have hle := Int64.le_toInt u
    have hlt := Int64.toInt_lt u
    simp only [UInt64.size]
    omega
  · intro u r h
    obtain ⟨hrescales, hr⟩ := rescaleDecimal_eq_ok_iff.mp h
    refine ⟨?_, ?_, ?_, ?_, ?_⟩
    · intro hle
      exact decimalNumber_rescaled hle h
    · intro hlt
      have hscaled := Rounding.div_mul_pow_of_lt (UInt8.lt_iff_toNat_lt.mp hlt) (u.toInt : ℚ)
      rw [hr, decimalNumber, hscaled]
      exact Rounding.away_nearest _
    · intro hu
      obtain ⟨n, hn, hnumber⟩ := (rescaleDecimal_eq (-u) s k name).1 (rescales_neg hu hrescales)
      rw [decimalNumber_eq_toPlaces, decimalNumber_neg hu, neg_mul, Rounding.away_neg, ← hr] at hnumber
      -- `n` has a place in 64 bits, so `r` is not the least number
      have hlt := Int64.toInt_lt n
      have hne : r ≠ Int64.minValue := by
        rintro rfl
        rw [minValue_toInt] at hnumber
        omega
      rw [hn, Int64.toInt_inj.mp (hnumber.trans (toInt_neg_of_ne hne).symm)]
    · intro v r' huv hv
      obtain ⟨-, hr'⟩ := rescaleDecimal_eq_ok_iff.mp hv
      have hle : (u.toInt : ℚ) ≤ v.toInt := Int.cast_le.mpr (Int64.le_iff_toInt_le.mp huv)
      rw [Int64.le_iff_toInt_le, hr, hr', decimalNumber, decimalNumber]
      apply Rounding.away_mono
      gcongr
    · intro hle
      refine rescaleDecimal_eq_ok_iff.mpr ⟨rescales_back hle hrescales r, ?_⟩
      rw [decimalNumber_rescaled hle h, decimalNumber, div_mul_cancel₀ _ (by positivity),
        Rounding.away_intCast]

/-- `-2.5` is rounded to `-3`. -/
theorem rescaleDecimal_minus_two_and_a_half :
    rescaleDecimal (-25) 1 0 "a" = .ok (-3) ∧ rescaleDecimal 25 1 0 "a" = .ok 3 ∧
      |((-25 : Int64).toInt : ℚ) / 10 ^ 1 - (-3 : Int64).toInt| ≤ 1 / 2 := by
  have hrounded : rescaleDecimal (-25) 1 0 "a" = .ok (-3) := by
    decide +kernel
  have hsound := (rescaleDecimal_sound 1 0 "a").2.2 _ _ hrounded
  exact ⟨hrounded, hsound.2.2.1 (by decide), (hsound.2.1 (by decide)).1⟩

/-- The number that rescaling stands for: exact for more places, rounded for fewer. -/
def rescaledNumber (unscaled : Int64) (s k : UInt8) : Int :=
  if s ≤ k then unscaled.toInt * 10 ^ (k.toNat - s.toNat)
  else Rounding.away (unscaled.toInt / (10 ^ (s.toNat - k.toNat) : Nat))

theorem not_fitsI64_mul_pow {n : Int} (hn : n ≠ 0) (hd : 19 ≤ d) : ¬ FitsI64 (n * 10 ^ d) := by
  have hpow : (10 : Int) ^ 19 ≤ 10 ^ d := pow_le_pow_right₀ (by decide) hd
  rw [FitsI64, minValue_toInt, maxValue_toInt]
  rcases lt_or_gt_of_ne hn with hneg | hpos
  · have hprod : n * 10 ^ d ≤ -1 * 10 ^ 19 := by nlinarith
    omega
  · have hprod : 1 * 10 ^ 19 ≤ n * 10 ^ d := by nlinarith
    omega

theorem fitsI64_rescaledNumber (unscaled : Int64) (h : ¬ s ≤ k) :
    FitsI64 (rescaledNumber unscaled s k) := by
  obtain ⟨n, hn, -⟩ := rescaleDecimal_narrow unscaled h ""
  rw [rescaledNumber, if_neg h, ← hn]
  exact fitsI64_toInt n

theorem rescales_iff : Rescales unscaled s k ↔ FitsI64 (rescaledNumber unscaled s k) ∧
      (unscaled = 0 → k.toNat - s.toNat < 19) ∧ s.toNat - k.toNat < 20 := by
  by_cases h : s ≤ k
  · have hle : s.toNat ≤ k.toNat := UInt8.le_iff_toNat_le.mp h
    have hnumber : rescaledNumber unscaled s k = unscaled.toInt * 10 ^ (k.toNat - s.toNat) :=
      if_pos h
    rw [Rescales, if_pos h, hnumber]
    constructor
    · rintro ⟨hd, hfits⟩
      exact ⟨hfits, fun _ => hd, by omega⟩
    · rintro ⟨hfits, hzero, -⟩
      refine ⟨?_, hfits⟩
      by_contra hd
      have hne : unscaled.toInt ≠ 0 := fun h0 => hd (hzero (Int64.toInt_inj.mp h0))
      exact not_fitsI64_mul_pow hne (Nat.not_lt.mp hd) hfits
  · have hlt : k.toNat < s.toNat := Nat.not_le.mp (mt UInt8.le_iff_toNat_le.mpr h)
    rw [Rescales, if_neg h]
    constructor
    · intro hd
      exact ⟨fitsI64_rescaledNumber unscaled h, fun _ => by omega, hd⟩
    · rintro ⟨-, -, hd⟩
      exact hd

/-- Only a number that does not fit is rejected, just when zero is given fewer than nineteen
more places, and every number loses fewer than twenty. -/
theorem rescaleDecimal_rejects_iff (unscaled : Int64) (s k : UInt8) (name : String) :
    (∀ e, rescaleDecimal unscaled s k name = .err e → ¬ FitsI64 (rescaledNumber unscaled s k)) ↔
      (unscaled = 0 → k.toNat - s.toNat < 19) ∧ s.toNat - k.toNat < 20 := by
  obtain ⟨hok, herr⟩ := rescaleDecimal_eq unscaled s k name
  constructor
  · intro honly
    have hfits : FitsI64 (rescaledNumber unscaled s k) → Rescales unscaled s k := by
      intro hfits
      by_contra hnot
      exact honly _ (herr hnot) hfits
    by_cases h : FitsI64 (rescaledNumber unscaled s k)
    · exact (rescales_iff.mp (hfits h)).2
    · -- more places than zero could be given, so the number is not zero
      have hle : s ≤ k := by
        by_contra hgt
        exact h (fitsI64_rescaledNumber unscaled hgt)
      have hle : s.toNat ≤ k.toNat := UInt8.le_iff_toNat_le.mp hle
      refine ⟨?_, by omega⟩
      rintro rfl
      refine absurd ?_ h
      rw [rescaledNumber, if_pos (UInt8.le_iff_toNat_le.mpr hle), Int64.toInt_zero, zero_mul]
      exact fitsI64_toInt 0
  · rintro hplaces e he hfits
    obtain ⟨n, hn, -⟩ := hok (rescales_iff.mpr ⟨hfits, hplaces⟩)
    rw [hn] at he
    cases he

/-- Zero is out of range for a column of 19 places, and `10 ^ -20` for one without places. -/
theorem rescaleDecimal_rejects_zero :
    rescaleDecimal 0 0 19 "a" = .err (decimalOutOfRange "a") ∧ rescaledNumber 0 0 19 = 0 ∧
    rescaleDecimal 1 20 0 "a" = .err (decimalOutOfRange "a") ∧ rescaledNumber 1 20 0 = 0 ∧
    FitsI64 0 := by
  refine ⟨by decide +kernel, by decide +kernel, by decide +kernel, by decide +kernel, ?_⟩
  exact fitsI64_toInt 0

end

end MysqlRust
