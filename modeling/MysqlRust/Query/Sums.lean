import MysqlRust.Foundation.PartialSums
import MysqlRust.Query.Where

/-! # Sums and averages

`SUM` and `AVG` add the numbers of a column row by row in 64 bits and report an error when a
partial sum does not fit. `AVG` then multiplies by a power of ten before it divides.
-/
namespace MysqlRust
open PartialSums Outcome List

def I64Sums (numbers : List Int) : Prop :=
  Within Int64.minValue.toInt Int64.maxValue.toInt 0 numbers
  deriving Decidable

section
variable {idx : Nat} {rows : List Row} {columnType : ColumnType} {s k : UInt8}
variable {amount : Value → Option Int64} {overflow : Error}
variable {row : Row} {v : Value}

def columnNumbers (idx : Nat) (rows : List Row) : List Int :=
  rows.filterMap fun row => (row[idx]?.bind Value.asNumber).map Int64.toInt

theorem I64Sums.sum {numbers : List Int} (h : I64Sums numbers) : FitsI64 numbers.sum := by
  have hsum := Within.sum h (by decide)
  rwa [zero_add] at hsum

def sumStep (overflow : Error) (idx : Nat) (amount : Value → Option Int64) (acc : Int64 × Nat)
    (row : Row) : Result (Int64 × Nat) := do
  let cell ← index row idx
  match amount cell with
  | some n => do
    let sum ← okOr overflow (checkedI64 (acc.1.toInt + n.toInt))
    pure (sum, acc.2 + 1)
  | none => pure acc

theorem sumColumn_eq_foldlM (overflow : Error) (idx : Nat) (amount : Value → Option Int64)
    (rows : List Row) :
    sumColumn overflow idx amount rows = rows.foldlM (sumStep overflow idx amount) (0, 0) := rfl

theorem sumStep_of_none (hv : row[idx]? = some v) (hamount : amount v = none) (acc : Int64 × Nat) :
    sumStep overflow idx amount acc row = .ok acc := by
  rw [sumStep, index_eq_ok.mpr hv, ok_bind, hamount]
  rfl

theorem sumStep_of_some {n : Int64} (hv : row[idx]? = some v) (hamount : amount v = some n)
    (acc : Int64 × Nat) :
    sumStep overflow idx amount acc row = if FitsI64 (acc.1.toInt + n.toInt) then
        .ok (Int64.ofInt (acc.1.toInt + n.toInt), acc.2 + 1)
      else .err overflow := by
  rw [sumStep, index_eq_ok.mpr hv, ok_bind, hamount]
  dsimp only
  by_cases hfits : FitsI64 (acc.1.toInt + n.toInt)
  · rw [checkedI64_of_fits hfits, if_pos hfits]
    rfl
  · rw [checkedI64_of_not_fits hfits, if_neg hfits]
    rfl

/-- The sum is exact as long as every partial sum is in range, and overflows otherwise. -/
theorem foldlM_sumStep (hcells : ∀ row ∈ rows, ∃ v, row[idx]? = some v ∧ amount v = v.asNumber)
    (acc : Int64) (count : Nat) :
    rows.foldlM (sumStep overflow idx amount) (acc, count) =
      if Within Int64.minValue.toInt Int64.maxValue.toInt acc.toInt (columnNumbers idx rows) then
        .ok (Int64.ofInt (acc.toInt + (columnNumbers idx rows).sum),
          count + (columnNumbers idx rows).length)
      else .err overflow := by
  induction rows generalizing acc count with
  | nil =>
    have hnil : Int64.ofInt (acc.toInt + 0) = acc := by rw [add_zero, Int64.ofInt_toInt]
    change ok (acc, count) = if True then .ok (Int64.ofInt (acc.toInt + 0), count) else _
    rw [if_pos trivial, hnil]
  | cons row rows ih =>
    obtain ⟨v, hv, hnumber⟩ := hcells row mem_cons_self
    have hrest := ih fun r hr => hcells r (mem_cons_of_mem row hr)
    rw [foldlM_cons]
    cases hamount : amount v with
    | none =>
      have hcons : columnNumbers idx (row :: rows) = columnNumbers idx rows :=
        filterMap_cons_none (by rw [hv, Option.bind_some, ← hnumber, hamount]; rfl)
      rw [sumStep_of_none hv hamount, ok_bind, hcons]
      exact hrest acc count
    | some n =>
      have hcons : columnNumbers idx (row :: rows) = n.toInt :: columnNumbers idx rows :=
        filterMap_cons_some (by rw [hv, Option.bind_some, ← hnumber, hamount]; rfl)
      rw [sumStep_of_some hv hamount, hcons]
      by_cases hfits : FitsI64 (acc.toInt + n.toInt)
      · have hwithin : Within Int64.minValue.toInt Int64.maxValue.toInt acc.toInt
            (n.toInt :: columnNumbers idx rows) ↔ Within Int64.minValue.toInt Int64.maxValue.toInt
              (acc.toInt + n.toInt) (columnNumbers idx rows) := and_iff_right hfits
        rw [if_pos hfits, ok_bind, hrest, toInt_ofInt_of_fits hfits, sum_cons,
          length_cons, add_assoc, Nat.add_assoc, Nat.add_comm 1]
        simp only [hwithin]
      · rw [if_neg hfits, if_neg fun h => hfits h.1]
        rfl

theorem sumColumn_eq (overflow : Error)
    (hcells : ∀ row ∈ rows, ∃ v, row[idx]? = some v ∧ amount v = v.asNumber) :
    sumColumn overflow idx amount rows = if I64Sums (columnNumbers idx rows) then
        .ok (Int64.ofInt (columnNumbers idx rows).sum, (columnNumbers idx rows).length)
      else .err overflow := by
  rw [sumColumn_eq_foldlM, foldlM_sumStep hcells, Int64.toInt_zero, zero_add, zero_add]
  rfl

variable {name : String}

theorem ite_ok_eq_iff {P Q : Prop} [Decidable P] [Decidable Q] (hPQ : P → Q) {e : Error} :
    ((if P then .ok v else .err e : Result Value) = if Q then .ok v else .err e) ↔ ¬ Q ∨ P := by
  by_cases hP : P
  · simp [hP, hPQ hP]
  · by_cases hQ : Q <;> simp [hP, hQ]

theorem CellsTyped.numbers {amount : Value → Option Int64} (h : CellsTyped idx columnType rows)
    (hamount : ∀ v ∈ columnType.values, amount v = v.asNumber) :
    ∀ row ∈ rows, ∃ v, row[idx]? = some v ∧ amount v = v.asNumber := by
  intro row hrow
  obtain ⟨v, hv, htype⟩ := h row hrow
  exact ⟨v, hv, hamount v htype⟩

theorem asInt_eq_asNumber (h : v ∈ ColumnType.int.values) : v.asInt = v.asNumber := by
  rcases h with rfl | h
  · rfl
  · cases v <;> first | rfl | cases h

theorem asDecimal_eq_asNumber {scale : UInt8} (h : v ∈ (ColumnType.decimal scale).values) :
    v.asDecimal = v.asNumber := by
  rcases h with rfl | h
  · rfl
  · cases v <;> first | rfl | cases h

def sumResult (columnType : ColumnType) (numbers : List Int) : Result Value :=
  if FitsI64 numbers.sum then
    .ok (if numbers = [] then .null else columnType.ofDigits (Int64.ofInt numbers.sum))
  else .err (.execution "SUM value out of range")

theorem evaluateSum_eq (hplaces : columnType.places = some s)
    (htyped : CellsTyped idx columnType rows) :
    evaluateSum (some (idx, columnType)) rows = if I64Sums (columnNumbers idx rows) then
        .ok (if columnNumbers idx rows = [] then .null
          else columnType.ofDigits (Int64.ofInt (columnNumbers idx rows).sum))
      else .err (.execution "SUM value out of range") := by
  cases columnType with
  | varchar | date => cases hplaces
  | int =>
    have hsum := sumColumn_eq (.execution "SUM value out of range")
      (htyped.numbers fun _ => asInt_eq_asNumber)
    rw [evaluateSum, okOr, ok_bind]
    dsimp only
    rw [hsum]
    split_ifs with hfits hnil
    · rw [hnil]
      rfl
    · rw [ok_bind]
      dsimp only
      rw [if_neg (mt length_eq_zero_iff.mp hnil)]
      rfl
    · rfl
  | decimal scale =>
    have hsum := sumColumn_eq (.execution "SUM value out of range")
      (htyped.numbers fun _ => asDecimal_eq_asNumber)
    rw [evaluateSum, okOr, ok_bind]
    dsimp only
    rw [hsum]
    split_ifs with hfits hnil
    · rw [hnil]
      rfl
    · rw [ok_bind]
      dsimp only
      rw [if_neg (mt length_eq_zero_iff.mp hnil)]
      rfl
    · rfl

theorem evaluateAggregate_sum (hname : upperName name = "SUM")
    (argCol : Option (Nat × ColumnType)) (rows : List Row) :
    evaluateAggregate name argCol rows = evaluateSum argCol rows := by
  unfold evaluateAggregate
  rw [hname]
  rfl

theorem evaluateSum_perm_iff (hplaces : columnType.places = some s)
    (htyped : CellsTyped idx columnType rows) {rows' : List Row} (hperm : rows'.Perm rows) :
    evaluateSum (some (idx, columnType)) rows' = sumResult columnType (columnNumbers idx rows) ↔
      ¬ FitsI64 (columnNumbers idx rows).sum ∨ I64Sums (columnNumbers idx rows') := by
  have hnumbers : (columnNumbers idx rows').Perm (columnNumbers idx rows) := hperm.filterMap _
  have htyped' : CellsTyped idx columnType rows' := fun row hrow =>
    htyped row (hperm.mem_iff.mp hrow)
  have hnil : columnNumbers idx rows' = [] ↔ columnNumbers idx rows = [] := by
    rw [← length_eq_zero_iff, hnumbers.length_eq, length_eq_zero_iff]
  rw [evaluateSum_eq hplaces htyped', sumResult]
  simp only [hnil, hnumbers.sum_eq]
  refine ite_ok_eq_iff fun hsums => ?_
  rw [← hnumbers.sum_eq]
  exact hsums.sum

/-- The sum is exact, or out of range when it is, unless a partial sum is out of range while
the whole sum is not. In every order of the rows it is so when the positive numbers and the
negative ones add up within range by themselves. -/
theorem sum_exact_iff (hname : upperName name = "SUM") (hplaces : columnType.places = some s)
    (htyped : CellsTyped idx columnType rows) :
    (evaluateAggregate name (some (idx, columnType)) rows =
        sumResult columnType (columnNumbers idx rows) ↔
      ¬ FitsI64 (columnNumbers idx rows).sum ∨ I64Sums (columnNumbers idx rows)) ∧
    ((∀ rows' : List Row, rows'.Perm rows → evaluateAggregate name (some (idx, columnType)) rows' =
          sumResult columnType (columnNumbers idx rows)) ↔
      ¬ FitsI64 (columnNumbers idx rows).sum ∨
        Int64.minValue.toInt ≤ negatives (columnNumbers idx rows) ∧
          positives (columnNumbers idx rows) ≤ Int64.maxValue.toInt) := by
  simp only [evaluateAggregate_sum hname]
  refine ⟨evaluateSum_perm_iff hplaces htyped .rfl, ?_⟩
  by_cases hfits : FitsI64 (columnNumbers idx rows).sum
  · have hsigns : (∀ rows' : List Row, rows'.Perm rows → I64Sums (columnNumbers idx rows')) ↔
        Int64.minValue.toInt ≤ negatives (columnNumbers idx rows) ∧
          positives (columnNumbers idx rows) ≤ Int64.maxValue.toInt :=
      forall_perm_within_iff (by decide) (by decide)
    rw [← hsigns, or_iff_right (not_not.mpr hfits)]
    refine forall_congr' fun rows' => forall_congr' fun hperm => ?_
    rw [evaluateSum_perm_iff hplaces htyped hperm, or_iff_right (not_not.mpr hfits)]
  · exact iff_of_true (fun rows' hperm =>
      (evaluateSum_perm_iff hplaces htyped hperm).mpr (.inl hfits)) (.inl hfits)

theorem sum_exact_small :
    evaluateAggregate "SUM" (some (0, .int)) [[.int 2], [.null], [.int (-3)]] =
      sumResult .int (columnNumbers 0 [[.int 2], [.null], [.int (-3)]]) := by
  have htyped : CellsTyped 0 .int [[.int 2], [.null], [.int (-3)]] := by
    intro row hrow
    simp only [mem_cons, not_mem_nil, or_false] at hrow
    rcases hrow with rfl | rfl | rfl
    · exact ⟨_, rfl, .inr trivial⟩
    · exact ⟨_, rfl, .inl rfl⟩
    · exact ⟨_, rfl, .inr trivial⟩
  exact (sum_exact_iff (by decide) rfl htyped).1.mpr (.inr (by decide))

/-- The sum of the largest number, `1` and `-1` depends on the order of the rows. -/
theorem sum_depends_on_order :
    evaluateAggregate "SUM" (some (0, .int)) [[.int Int64.maxValue], [.int 1], [.int (-1)]] =
        .err (.execution "SUM value out of range") ∧
      evaluateAggregate "SUM" (some (0, .int)) [[.int 1], [.int (-1)], [.int Int64.maxValue]] =
        .ok (.int Int64.maxValue) := by
  decide +kernel

variable {numbers : List Int}
variable {n m : Nat}

def scaledSum (s : UInt8) (numbers : List Int) : Int :=
  numbers.sum * 10 ^ ((averageScale s).toNat - s.toNat)

/-- The digits of the exact mean of numbers with `s` places, rounded to `k` places. -/
def roundedMean (s k : UInt8) (numbers : List Int) : Int :=
  Rounding.away ((numbers.sum : ℚ) / 10 ^ s.toNat / numbers.length * 10 ^ k.toNat)

def averageResult (s k : UInt8) (numbers : List Int) : Result Value :=
  if FitsI64 (roundedMean s k numbers) then
    .ok (.decimal (Int64.ofInt (roundedMean s k numbers)) k)
  else .err (.execution "AVG value out of range")

structure AverageFits (s : UInt8) (numbers : List Int) : Prop where
  scale : s.toNat ≤ 30
  sums : I64Sums numbers
  scaled : FitsI64 (scaledSum s numbers)
  least : scaledSum s numbers = Int64.minValue.toInt → numbers.length ≠ 1

instance (s : UInt8) (numbers : List Int) : Decidable (AverageFits s numbers) :=
  decidable_of_iff (s.toNat ≤ 30 ∧ I64Sums numbers ∧ FitsI64 (scaledSum s numbers) ∧
      (scaledSum s numbers = Int64.minValue.toInt → numbers.length ≠ 1))
    ⟨fun h => ⟨h.1, h.2.1, h.2.2.1, h.2.2.2⟩, fun h => ⟨h.scale, h.sums, h.scaled, h.least⟩⟩

theorem toNat_averageScale (s : UInt8) : (averageScale s).toNat = min (s.toNat + 4) 30 := by
  have hlt := s.toNat_lt
  rw [averageScale, UInt8.toNat_ofNat_of_lt' (by simp only [UInt8.size]; omega)]
  omega

/-- The factor has the places the average has more, and none when the difference wraps. -/
theorem checkedI64_factor (s : UInt8) : checkedI64 (10 ^ (averageScale s - s).toNat) =
      if s.toNat ≤ 30 then some (Int64.ofInt (10 ^ ((averageScale s).toNat - s.toNat))) else none := by
  have hscale := toNat_averageScale s
  have hlt := s.toNat_lt
  rw [checkedI64_pow]
  by_cases hs : s.toNat ≤ 30
  · have hsub : (averageScale s - s).toNat = (averageScale s).toNat - s.toNat :=
      UInt8.toNat_sub_of_le _ _ (UInt8.le_iff_toNat_le.mpr (by omega))
    rw [if_pos hs, hsub, if_pos (by omega)]
  · have hwrap : (averageScale s - s).toNat = 286 - s.toNat := by
      rw [UInt8.toNat_sub, hscale]
      omega
    rw [if_neg hs, hwrap, if_neg (by omega)]

theorem roundedMean_eq (hs : s.toNat ≤ 30) (numbers : List Int) :
    roundedMean s (averageScale s) numbers =
      Rounding.away ((scaledSum s numbers : ℚ) / numbers.length) := by
  have hle : s.toNat ≤ (averageScale s).toNat := by
    rw [toNat_averageScale]
    omega
  have hpow : (10 : ℚ) ^ (averageScale s).toNat =
      10 ^ ((averageScale s).toNat - s.toNat) * 10 ^ s.toNat := by
    rw [← pow_add, Nat.sub_add_cancel hle]
  rw [roundedMean, scaledSum, hpow]
  congr 1
  push_cast
  field_simp

theorem toNat_roundedQuotient (hm : m ≤ 2 ^ 63) (hn : n < 2 ^ 63) :
    ((UInt64.ofNat m + UInt64.ofNat n / 2) / UInt64.ofNat n).toNat = (m + n / 2) / n := by
  have hmagnitude : (UInt64.ofNat m).toNat = m :=
    UInt64.toNat_ofNat_of_lt' (by simp only [UInt64.size]; omega)
  have hcount : (UInt64.ofNat n).toNat = n :=
    UInt64.toNat_ofNat_of_lt' (by simp only [UInt64.size]; omega)
  have htwo : (2 : UInt64).toNat = 2 := rfl
  rw [UInt64.toNat_div, UInt64.toNat_add, UInt64.toNat_div, hmagnitude, hcount, htwo,
    Nat.mod_eq_of_lt (by omega)]

theorem roundedQuotient_le (hn : 0 < n) :
    (m + n / 2) / n ≤ m ∧ (2 ≤ m → 2 ≤ n → (m + n / 2) / n < m) := by
  obtain ⟨t, rfl⟩ : ∃ t, n = t + 1 := ⟨n - 1, by omega⟩
  constructor
  · rw [← Nat.lt_succ_iff, Nat.div_lt_iff_lt_mul hn, Nat.succ_mul, Nat.mul_succ]
    omega
  · intro hm ht
    have hmul : 2 * t ≤ m * t := Nat.mul_le_mul_right t hm
    rw [Nat.div_lt_iff_lt_mul hn, Nat.mul_succ]
    omega

/-- The last steps of an average: the quotient is rounded on the magnitude, and the least
number has a magnitude that does not fit. -/
theorem okOr_roundedQuotient {x : Int} (hx : FitsI64 x) (hn : 0 < n) (hlt : n < 2 ^ 63) (e : Error)
    (k : UInt8) :
    (do
      let rounded ← okOr e (checkedI64
        ((UInt64.ofNat x.natAbs + UInt64.ofNat n / 2) / UInt64.ofNat n).toNat)
      pure (.decimal (if Int64.ofInt x < 0 then -rounded else rounded) k) : Result Value) =
      if x = Int64.minValue.toInt → n ≠ 1 then
        .ok (.decimal (Int64.ofInt (Rounding.away ((x : ℚ) / n))) k)
      else .err e := by
  have hrange := hx
  rw [FitsI64, minValue_toInt, maxValue_toInt] at hrange
  obtain ⟨hle, hless⟩ := roundedQuotient_le (m := x.natAbs) hn
  have hsign : Int64.ofInt x < 0 ↔ x < 0 := by
    rw [Int64.lt_iff_toInt_lt, toInt_ofInt_of_fits hx]
    rfl
  rw [toNat_roundedQuotient (by omega) hlt, Rounding.away_div hn, minValue_toInt]
  generalize hquotient : (x.natAbs + n / 2) / n = q at hle hless
  by_cases hleast : x = -2 ^ 63 → n ≠ 1
  · have hq : (q : Int) ≤ 2 ^ 63 - 1 := by
      by_cases hmin : x = -2 ^ 63
      · have := hless (by omega) (by have := hleast hmin; omega)
        omega
      · omega
    have hfits : FitsI64 q := by
      rw [FitsI64, minValue_toInt, maxValue_toInt]
      omega
    rw [if_pos hleast, checkedI64_of_fits hfits, okOr, ok_bind, pure_eq]
    simp only [hsign]
    split_ifs
    · rw [Int64.ofInt_neg]
    · rfl
  · obtain ⟨hmin, hone⟩ := Classical.not_imp.mp hleast
    have hq : (q : Int) = 2 ^ 63 := by
      rw [← hquotient, not_not.mp hone, hmin]
      rfl
    have hfits : ¬ FitsI64 q := by
      rw [FitsI64, minValue_toInt, maxValue_toInt]
      omega
    rw [if_neg hleast, checkedI64_of_not_fits hfits]
    rfl

/-- The mean is rounded once, to four places more than the column has, thirty at most. -/
theorem averageColumn_eq (htyped : CellsTyped idx columnType rows) (hne : columnNumbers idx rows ≠ [])
    (hlength : (columnNumbers idx rows).length < 2 ^ 63) :
    averageColumn s idx rows = if AverageFits s (columnNumbers idx rows) then
        .ok (.decimal (Int64.ofInt (roundedMean s (averageScale s) (columnNumbers idx rows)))
          (averageScale s))
      else .err (.execution "AVG value out of range") := by
  have hsum := sumColumn_eq (.execution "AVG value out of range") (htyped.numbers fun _ _ => rfl)
  have hcount : (columnNumbers idx rows).length ≠ 0 := mt length_eq_zero_iff.mp hne
  rw [averageColumn]
  dsimp only
  rw [hsum]
  by_cases hsums : I64Sums (columnNumbers idx rows)
  · rw [if_pos hsums, ok_bind]
    dsimp only
    rw [if_neg hcount, checkedI64_factor]
    by_cases hs : s.toNat ≤ 30
    · have hfactor : FitsI64 (10 ^ ((averageScale s).toNat - s.toNat)) := by
        have hscale := toNat_averageScale s
        have hle : (10 : Int) ^ ((averageScale s).toNat - s.toNat) ≤ 10 ^ 4 :=
          pow_le_pow_right₀ (by decide) (by omega)
        have hpos : (0 : Int) < 10 ^ ((averageScale s).toNat - s.toNat) := by positivity
        rw [FitsI64, minValue_toInt, maxValue_toInt]
        omega
      rw [if_pos hs, okOr, ok_bind, toInt_ofInt_of_fits hfactor,
        toInt_ofInt_of_fits hsums.sum, ← scaledSum]
      by_cases hscaled : FitsI64 (scaledSum s (columnNumbers idx rows))
      · have hiff : AverageFits s (columnNumbers idx rows) ↔
            (scaledSum s (columnNumbers idx rows) = Int64.minValue.toInt →
              (columnNumbers idx rows).length ≠ 1) := by
          constructor
          · exact AverageFits.least
          · exact fun hleast => ⟨hs, hsums, hscaled, hleast⟩
        rw [checkedI64_of_fits hscaled, okOr, ok_bind, toInt_ofInt_of_fits hscaled,
          okOr_roundedQuotient hscaled (by omega) hlength, roundedMean_eq hs]
        simp only [hiff]
      · rw [checkedI64_of_not_fits hscaled, if_neg fun h => hscaled h.scaled]
        rfl
    · rw [if_neg hs, if_neg fun h => hs h.scale]
      rfl
  · rw [if_neg hsums, if_neg fun h => hsums h.sums]
    rfl

theorem AverageFits.roundedMean (h : AverageFits s numbers) (hne : numbers ≠ []) :
    FitsI64 (roundedMean s (averageScale s) numbers) := by
  have hpos : 0 < numbers.length := length_pos_iff.mpr hne
  have hscaled := h.scaled
  obtain ⟨hle, -⟩ := roundedQuotient_le (m := (scaledSum s numbers).natAbs) hpos
  rw [roundedMean_eq h.scale, Rounding.away_div hpos]
  rw [FitsI64, minValue_toInt, maxValue_toInt] at hscaled ⊢
  generalize ((scaledSum s numbers).natAbs + numbers.length / 2) / numbers.length = q at hle ⊢
  split_ifs <;> omega

theorem evaluateAggregate_average (hname : upperName name = "AVG")
    (hplaces : columnType.places = some s) :
    aggregateResultType name (some columnType) = .ok (.decimal (averageScale s)) ∧
      ∀ idx rows, evaluateAggregate name (some (idx, columnType)) rows = averageColumn s idx rows := by
  unfold aggregateResultType evaluateAggregate
  rw [hname]
  cases columnType with
  | varchar | date => cases hplaces
  | int =>
    cases hplaces
    exact ⟨rfl, fun _ _ => rfl⟩
  | decimal scale =>
    cases hplaces
    exact ⟨rfl, fun _ _ => rfl⟩

/-- The average is the exact mean rounded to the announced scale, or an error when that does
not fit, exactly when it does not fit or nothing on the way to it is out of range. -/
theorem average_exact_iff (hname : upperName name = "AVG") (hplaces : columnType.places = some s)
    (htyped : CellsTyped idx columnType rows) (hne : columnNumbers idx rows ≠ [])
    (hlength : rows.length < 2 ^ 63) :
    ∃ k, aggregateResultType name (some columnType) = .ok (.decimal k) ∧
      (evaluateAggregate name (some (idx, columnType)) rows =
          averageResult s k (columnNumbers idx rows) ↔
        ¬ FitsI64 (roundedMean s k (columnNumbers idx rows)) ∨
          AverageFits s (columnNumbers idx rows)) := by
  obtain ⟨htype, heval⟩ := evaluateAggregate_average hname hplaces
  have hcount : (columnNumbers idx rows).length < 2 ^ 63 :=
    Nat.lt_of_le_of_lt (length_filterMap_le _ _) hlength
  refine ⟨averageScale s, htype, ?_⟩
  rw [heval, averageColumn_eq htyped hne hcount, averageResult]
  exact ite_ok_eq_iff fun hfits => hfits.roundedMean hne

theorem average_exact_third : ∃ k, aggregateResultType "AVG" (some .int) = .ok (.decimal k) ∧
      evaluateAggregate "AVG" (some (0, .int)) [[.int 1], [.int 0], [.int 0]] =
        averageResult 0 k (columnNumbers 0 [[.int 1], [.int 0], [.int 0]]) := by
  have htyped : CellsTyped 0 .int [[.int 1], [.int 0], [.int 0]] := by
    intro row hrow
    simp only [mem_cons, not_mem_nil, or_false] at hrow
    rcases hrow with rfl | rfl | rfl <;> exact ⟨_, rfl, .inr trivial⟩
  obtain ⟨k, htype, hiff⟩ := average_exact_iff (by decide : upperName "AVG" = "AVG") rfl htyped
    (by decide) (by decide)
  exact ⟨k, htype, hiff.mpr (.inr (by decide))⟩

/-- The mean of a number and itself is that number, but the sum with four more places does not
fit; and a column of 31 places has no average at all. -/
theorem average_out_of_range :
    let half : List Row := [[.int 500000000000000], [.int 500000000000000]]
    evaluateAggregate "AVG" (some (0, .int)) half = .err (.execution "AVG value out of range") ∧
      averageResult 0 4 (columnNumbers 0 half) = .ok (.decimal 5000000000000000000 4) ∧
      evaluateAggregate "AVG" (some (0, .decimal 31)) [[.decimal 0 31]] =
        .err (.execution "AVG value out of range") ∧
      averageResult 31 30 (columnNumbers 0 [[.decimal 0 31]]) = .ok (.decimal 0 30) := by
  decide +kernel

end

end MysqlRust
