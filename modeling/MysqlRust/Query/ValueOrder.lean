import Mathlib.Algebra.Order.Field.Rat
import Mathlib.Algebra.Order.Field.Power
import Mathlib.Tactic.FieldSimp
import Mathlib.Tactic.Linarith
import Mathlib.Tactic.NormNum
import MysqlRust.Foundation.Orders
import MysqlRust.Query.Compare
import MysqlRust.Storage.Typing

/-! # The order of values

What the comparison of two values means: the order of the numbers, texts or dates they stand
for. Numbers of different scales are brought to the finer scale in 64 bits, which saturates.
-/
namespace MysqlRust

/-- Code points are in the order of their UTF-8 bytes, which is the order the source uses. -/
theorem compareText_eq_utf8 (a b : String) : compareText a b = compare (utf8 a) (utf8 b) := by
  rw [utf8_eq_flatMap, utf8_eq_flatMap,
    Orders.utf8EncodeChar_ordered.flatMap fun c => String.utf8EncodeChar_ne_nil]
  rfl

theorem compare_map_toNat (as bs : List Char) :
    compare (as.map Char.toNat) (bs.map Char.toNat) = compare as bs := by
  induction as generalizing bs with
  | nil => cases bs <;> rfl
  | cons a as ih =>
    cases bs with
    | nil => rfl
    | cons b bs =>
      rw [List.map_cons, List.map_cons, List.compare_cons_cons, List.compare_cons_cons, ih,
        Orders.compare_char]

theorem paddedDigits_eq_positional (k n : Nat) :
    paddedDigits k n = Orders.positional 10 48 k n := by
  induction k generalizing n with
  | zero => rfl
  | succ k ih => rw [paddedDigits, Orders.positional, ih, Nat.add_comm]

theorem compare_paddedDigits {k m n : Nat} (hm : m < 10 ^ k) (hn : n < 10 ^ k)
    (xs ys : List UInt8) :
    compare (paddedDigits k m ++ xs) (paddedDigits k n ++ ys) =
      (compare m n).then (compare xs ys) := by
  rw [paddedDigits_eq_positional, paddedDigits_eq_positional,
    Orders.compare_positional (by decide) (by decide), Nat.mod_eq_of_lt hm, Nat.mod_eq_of_lt hn]

section Decimals
variable {s t d : UInt8}

def decimalNumber (unscaled : Int64) (scale : UInt8) : ℚ :=
  unscaled.toInt / 10 ^ scale.toNat

theorem compare_toInt (a b : Int64) : compare a b = compare a.toInt b.toInt := by
  refine Orders.compare_congr ?_ ?_
  · rw [Std.compare_eq_lt, Std.compare_eq_lt, Int64.lt_iff_toInt_lt]
  · rw [Std.compare_eq_lt, Std.compare_eq_lt, Int64.lt_iff_toInt_lt]

theorem compare_decimalNumber (hst : s.toNat ≤ t.toNat) (a b : Int64) :
    compare (decimalNumber a s) (decimalNumber b t) =
      compare (a.toInt * 10 ^ (t.toNat - s.toNat)) b.toInt := by
  have hscale : decimalNumber a s = ((a.toInt * 10 ^ (t.toNat - s.toNat) : Int) : ℚ) / 10 ^ t.toNat := by
    have hpow : (10 : ℚ) ^ t.toNat = 10 ^ (t.toNat - s.toNat) * 10 ^ s.toNat := by
      rw [← pow_add, Nat.sub_add_cancel hst]
    rw [decimalNumber, hpow]
    push_cast
    field_simp
  have hpos : (0 : ℚ) < 10 ^ t.toNat := by positivity
  rw [hscale, decimalNumber]
  refine Orders.compare_congr ?_ ?_
  · rw [compare_lt_iff_lt, Std.compare_eq_lt, div_lt_div_iff_of_pos_right hpos, Int.cast_lt]
  · rw [compare_lt_iff_lt, Std.compare_eq_lt, div_lt_div_iff_of_pos_right hpos, Int.cast_lt]

theorem minValue_toInt : Int64.minValue.toInt = -2 ^ 63 := by decide

theorem maxValue_toInt : Int64.maxValue.toInt = 2 ^ 63 - 1 := by decide

theorem toInt_saturateI64 (n : Int) :
    (saturateI64 n).toInt = max Int64.minValue.toInt (min n Int64.maxValue.toInt) := by
  rw [saturateI64, minValue_toInt, maxValue_toInt]
  exact Int64.toInt_ofInt_of_le (by omega) (by omega)

/-- A saturated number still compares well, unless the other side is the bound it met. -/
theorem compare_saturateI64 (n : Int) (b : Int64) : compare (saturateI64 n) b = compare n b.toInt ↔
      (b = Int64.maxValue → n ≤ Int64.maxValue.toInt) ∧
        (b = Int64.minValue → Int64.minValue.toInt ≤ n) := by
  have hle := Int64.le_toInt b
  have hlt := Int64.toInt_lt b
  rw [compare_toInt, toInt_saturateI64, ← Int64.toInt_inj, ← Int64.toInt_inj, minValue_toInt,
    maxValue_toInt]
  generalize b.toInt = m at hle hlt
  rcases lt_trichotomy n m with h | rfl | h
  · rw [Int.compare_eq_lt.mpr h, Int.compare_eq_lt]
    omega
  · rw [Int.compare_eq_eq.mpr rfl, Int.compare_eq_eq]
    omega
  · rw [Int.compare_eq_gt.mpr h, Int.compare_eq_gt]
    omega

/-- A number `a` multiplied by `10 ^ d` in 64 bits can be compared with `b`: it did not meet
the bound that `b` is, and where the factor itself has no 64 bits, `0` stands above `b`. -/
structure FitsBeside (a : Int64) (d : Nat) (b : Int64) : Prop where
  above : b = Int64.maxValue → a.toInt * 10 ^ d ≤ Int64.maxValue.toInt
  below : b = Int64.minValue → Int64.minValue.toInt ≤ a.toInt * 10 ^ d
  zero : 19 ≤ d → a = 0 → b < 0

theorem checkedI64_pow (d : Nat) :
    checkedI64 (10 ^ d) = if d < 19 then some (Int64.ofInt (10 ^ d)) else none := by
  rw [checkedI64, minValue_toInt, maxValue_toInt]
  have hpos : (0 : Int) < 10 ^ d := by positivity
  by_cases hd : d < 19
  · have hle : (10 : Int) ^ d ≤ 10 ^ 18 := pow_le_pow_right₀ (by decide) (by omega)
    rw [if_pos hd, if_pos (by omega)]
  · have hle : (10 : Int) ^ 19 ≤ 10 ^ d := pow_le_pow_right₀ (by decide) (by omega)
    rw [if_neg hd, if_neg (by omega)]

/-- Scaling up saturates, unless it scales zero by a power out of range. -/
theorem scaleUp_eq_saturateI64 {a : Int64} (h : d.toNat < 19 ∨ a ≠ 0) :
    scaleUp a d = saturateI64 (a.toInt * 10 ^ d.toNat) := by
  rw [scaleUp, checkedI64_pow]
  by_cases hd : d.toNat < 19
  · have hle : (10 : Int) ^ d.toNat ≤ 10 ^ 18 := pow_le_pow_right₀ (by decide) (by omega)
    have hpos : (0 : Int) < 10 ^ d.toNat := by positivity
    rw [if_pos hd]
    dsimp only
    rw [Int64.toInt_ofInt_of_le (by omega) (by omega)]
  · -- a factor beyond 64 bits takes every number but zero to the bound of its sign
    have hle : (10 : Int) ^ 19 ≤ 10 ^ d.toNat := pow_le_pow_right₀ (by decide) (by omega)
    have hne : a.toInt ≠ 0 := fun h0 => h.resolve_left hd (Int64.toInt_inj.mp h0)
    rw [if_neg hd]
    dsimp only
    refine Int64.toInt_inj.mp ?_
    rw [toInt_saturateI64]
    split_ifs with hneg
    · have hlt : a.toInt < 0 := Int64.lt_iff_toInt_lt.mp hneg
      have hprod : a.toInt * 10 ^ d.toNat ≤ -1 * 10 ^ 19 := by nlinarith
      rw [minValue_toInt, maxValue_toInt]
      omega
    · have hlt : 0 < a.toInt := by
        have := mt Int64.lt_iff_toInt_lt.mpr hneg
        change ¬ a.toInt < 0 at this
        omega
      have hprod : 1 * 10 ^ 19 ≤ a.toInt * 10 ^ d.toNat := by nlinarith
      rw [minValue_toInt, maxValue_toInt]
      omega

theorem scaleUp_zero (hd : 19 ≤ d.toNat) : scaleUp 0 d = Int64.maxValue := by
  rw [scaleUp, checkedI64_pow, if_neg (Nat.not_lt.mpr hd)]
  rfl

theorem compare_scaleUp (a : Int64) (d : UInt8) (b : Int64) :
    compare (scaleUp a d) b = compare (a.toInt * 10 ^ d.toNat) b.toInt ↔
      FitsBeside a d.toNat b := by
  by_cases h : d.toNat < 19 ∨ a ≠ 0
  · rw [scaleUp_eq_saturateI64 h, compare_saturateI64]
    constructor
    · rintro ⟨habove, hbelow⟩
      exact ⟨habove, hbelow, fun hd ha => absurd h (by simp [ha, hd])⟩
    · rintro ⟨habove, hbelow, -⟩
      exact ⟨habove, hbelow⟩
  · obtain ⟨hd, ha⟩ := not_or.mp h
    have hd := Nat.not_lt.mp hd
    obtain rfl := not_not.mp ha
    have hle := Int64.toInt_lt b
    rw [scaleUp_zero hd, compare_toInt, maxValue_toInt, Int64.toInt_zero, zero_mul]
    have hiff : compare (2 ^ 63 - 1) b.toInt = compare 0 b.toInt ↔ b.toInt < 0 := by
      rcases lt_trichotomy 0 b.toInt with h | h | h
      · rw [Int.compare_eq_lt.mpr h, Int.compare_eq_lt]
        omega
      · rw [← h]
        decide
      · rw [Int.compare_eq_gt.mpr h, Int.compare_eq_gt]
        omega
    rw [hiff]
    constructor
    · intro hneg
      refine ⟨fun _ => ?_, fun _ => ?_, fun _ _ => Int64.lt_iff_toInt_lt.mpr hneg⟩
      · rw [maxValue_toInt, Int64.toInt_zero, zero_mul]
        decide
      · rw [minValue_toInt, Int64.toInt_zero, zero_mul]
        decide
    · intro hfits
      exact Int64.lt_iff_toInt_lt.mp (hfits.zero hd rfl)

def ScalesExactly (a : Int64) (s : UInt8) (b : Int64) (t : UInt8) : Prop :=
  if s ≤ t then FitsBeside a (t.toNat - s.toNat) b else FitsBeside b (s.toNat - t.toNat) a

theorem FitsBeside.same_scale (a b : Int64) : FitsBeside a 0 b := by
  have hle := Int64.le_toInt a
  have hlt := Int64.toInt_lt a
  refine ⟨fun _ => ?_, fun _ => ?_, fun h => absurd h (by decide)⟩
  · rw [maxValue_toInt]
    omega
  · rw [minValue_toInt]
    omega

theorem valueOrdering_same_scale (a b : Int64) (s : UInt8) :
    valueOrdering (.decimal a s) (.decimal b s) = compare a b := by
  simp only [valueOrdering, Std.ReflOrd.compare_self]

theorem valueOrdering_finer (h : s.toNat < t.toNat) (a b : Int64) :
    valueOrdering (.decimal a s) (.decimal b t) = compare (scaleUp a (t - s)) b := by
  have hst : compare s t = .lt := Std.compare_eq_lt.mpr (UInt8.lt_iff_toNat_lt.mpr h)
  simp only [valueOrdering, hst]

theorem valueOrdering_coarser (h : t.toNat < s.toNat) (a b : Int64) :
    valueOrdering (.decimal a s) (.decimal b t) = compare a (scaleUp b (s - t)) := by
  have hst : compare s t = .gt := Std.compare_eq_gt.mpr (UInt8.lt_iff_toNat_lt.mpr h)
  simp only [valueOrdering, hst]

/-- Decimals compare as the numbers they stand for exactly when the coarser one can be brought
to the finer scale. -/
theorem valueOrdering_decimal_iff (a : Int64) (s : UInt8) (b : Int64) (t : UInt8) :
    valueOrdering (.decimal a s) (.decimal b t) =
      compare (decimalNumber a s) (decimalNumber b t) ↔ ScalesExactly a s b t := by
  rcases Nat.lt_trichotomy s.toNat t.toNat with hlt | heq | hlt
  · have hle : s ≤ t := UInt8.le_iff_toNat_le.mpr (Nat.le_of_lt hlt)
    rw [valueOrdering_finer hlt, compare_decimalNumber (Nat.le_of_lt hlt), ScalesExactly,
      if_pos hle, ← UInt8.toNat_sub_of_le t s hle]
    exact compare_scaleUp a (t - s) b
  · obtain rfl : s = t := UInt8.toNat_inj.mp heq
    have hle : s ≤ s := UInt8.le_iff_toNat_le.mpr (Nat.le_refl s.toNat)
    rw [valueOrdering_same_scale, compare_decimalNumber (Nat.le_refl _), ScalesExactly,
      if_pos hle, Nat.sub_self, pow_zero, mul_one, compare_toInt]
    exact iff_of_true rfl (.same_scale a b)
  · have hle : t ≤ s := UInt8.le_iff_toNat_le.mpr (Nat.le_of_lt hlt)
    have hnot : ¬ s ≤ t := fun h => Nat.not_le_of_lt hlt (UInt8.le_iff_toNat_le.mp h)
    rw [valueOrdering_coarser hlt, Std.OrientedOrd.eq_swap (a := a),
      Std.OrientedOrd.eq_swap (a := decimalNumber a s), Ordering.swap_inj,
      compare_decimalNumber (Nat.le_of_lt hlt), ScalesExactly, if_neg hnot,
      ← UInt8.toNat_sub_of_le s t hle]
    exact compare_scaleUp b (s - t) a

/-- The largest number and a tenth of it compare equal, and `0` stands above a small one. -/
theorem valueOrdering_decimal_saturates :
    valueOrdering (.decimal Int64.maxValue 0) (.decimal Int64.maxValue 1) = .eq ∧
      decimalNumber Int64.maxValue 1 < decimalNumber Int64.maxValue 0 ∧
      valueOrdering (.decimal 0 0) (.decimal 1 19) = .gt ∧
      decimalNumber 0 0 < decimalNumber 1 19 := by
  refine ⟨by decide, ?_, by decide, ?_⟩
  · rw [decimalNumber, decimalNumber, maxValue_toInt]
    change ((2 ^ 63 - 1 : Int) : ℚ) / 10 ^ 1 < ((2 ^ 63 - 1 : Int) : ℚ) / 10 ^ 0
    norm_num
  · change ((0 : Int) : ℚ) / 10 ^ 0 < ((1 : Int) : ℚ) / 10 ^ 19
    norm_num

end Decimals

def DateOf (s : String) (year month day : Nat) : Prop :=
  year < 10 ^ 4 ∧ (1 ≤ month ∧ month ≤ 12) ∧ (1 ≤ day ∧ day ≤ 31) ∧ utf8 s = dateText year month day

theorem compareText_dates {s t : String} {year month day year' month' day' : Nat}
    (hs : DateOf s year month day) (ht : DateOf t year' month' day') :
    compareText s t =
      (compare year year').then ((compare month month').then (compare day day')) := by
  obtain ⟨hy, hm, hd, hbytes⟩ := hs
  obtain ⟨hy', hm', hd', hbytes'⟩ := ht
  have hdays : compare (paddedDigits 2 day) (paddedDigits 2 day') = compare day day' := by
    have h := compare_paddedDigits (k := 2) (by omega : day < 10 ^ 2) (by omega : day' < 10 ^ 2) [] []
    rwa [List.append_nil, List.append_nil, Std.ReflOrd.compare_self, Ordering.then_eq] at h
  have hdash : compare (45 : UInt8) 45 = .eq := Std.ReflOrd.compare_self
  rw [compareText_eq_utf8, hbytes, hbytes', dateText, dateText, compare_paddedDigits hy hy',
    List.compare_cons_cons, hdash, Ordering.eq_then,
    compare_paddedDigits (by omega) (by omega), List.compare_cons_cons, hdash, Ordering.eq_then,
    hdays]

def ColumnType.values (columnType : ColumnType) : Set Value :=
  {v | v = .null ∨ v.HasType columnType}

theorem valueOrdering_null {v : Value} (h : v ≠ .null) :
    valueOrdering .null v = .lt ∧ valueOrdering v .null = .gt := by
  cases v <;> simp_all [valueOrdering]

theorem total_of_carried {β : Type} [Ord β] [Std.TransOrd β] [Std.LawfulEqOrd β] {value : β → Value}
    (hne : ∀ x, value x ≠ .null) (h : ∀ x y, valueOrdering (value x) (value y) = compare x y)
    {S : Set Value} (hS : ∀ v ∈ S, v = .null ∨ ∃ x, value x = v) :
    Orders.TotalOrderOn valueOrdering S := by
  have hcompare : ∀ x y : Option β,
      valueOrdering (x.elim .null value) (y.elim .null value) = compare x y := by
    rintro (_ | x) (_ | y)
    · rfl
    · exact (valueOrdering_null (hne y)).1
    · exact (valueOrdering_null (hne x)).2
    · exact h x y
  refine .of_names hcompare fun v hv => ?_
  rcases hS v hv with rfl | ⟨x, rfl⟩
  · exact ⟨none, rfl⟩
  · exact ⟨some x, rfl⟩

/-- The values of one column are totally ordered. -/
theorem valueOrdering_total (columnType : ColumnType) :
    Orders.TotalOrderOn valueOrdering columnType.values := by
  cases columnType with
  | int =>
    have hne : ∀ n, Value.int n ≠ .null := by simp
    refine total_of_carried hne (fun _ _ => rfl) ?_
    rintro (_ | _ | _ | _ | _) (hv | hv) <;> simp_all [Value.HasType]
  | decimal scale =>
    have hne : ∀ n, Value.decimal n scale ≠ .null := by simp
    refine total_of_carried hne (fun m n => valueOrdering_same_scale m n scale) ?_
    rintro (_ | _ | _ | _ | _) (hv | hv) <;> simp_all [Value.HasType]
  | varchar =>
    have hne : ∀ cs, Value.varchar (String.ofList cs) ≠ .null := by simp
    refine total_of_carried hne (fun _ _ => by simp [valueOrdering, compareText]) ?_
    rintro (_ | s | _ | _ | _) (hv | hv)
    case varchar.inr => exact .inr ⟨s.toList, by rw [String.ofList_toList]⟩
    all_goals simp_all [Value.HasType]
  | date =>
    have hne : ∀ cs, Value.date (String.ofList cs) ≠ .null := by simp
    refine total_of_carried hne (fun _ _ => by simp [valueOrdering, compareText]) ?_
    rintro (_ | _ | _ | s | _) (hv | hv)
    case date.inr => exact .inr ⟨s.toList, by rw [String.ofList_toList]⟩
    all_goals simp_all [Value.HasType]

theorem valueOrdering_eq_iff {a b : Value} {columnType : ColumnType} (ha : a.HasType columnType)
    (hb : b.HasType columnType) : valueOrdering a b = .eq ↔ a = b :=
  (valueOrdering_total columnType).eq_iff a (.inr ha) b (.inr hb)

/-- Within one column the comparison is the order of SQL: total, with `NULL` first and only
equal values equal; and it is the order of integers, of exact decimals, of texts by code points
and of dates by year, month and day. -/
theorem valueOrdering_column_order :
    (∀ columnType : ColumnType, Orders.TotalOrderOn valueOrdering columnType.values ∧
      ∀ v ∈ columnType.values, v ≠ .null → valueOrdering .null v = .lt) ∧
    (∀ m n, valueOrdering (.int m) (.int n) = compare m.toInt n.toInt) ∧
    (∀ m n scale, valueOrdering (.decimal m scale) (.decimal n scale) =
      compare (decimalNumber m scale) (decimalNumber n scale)) ∧
    (∀ s t : String, valueOrdering (.varchar s) (.varchar t) =
      compare (s.toList.map Char.toNat) (t.toList.map Char.toNat)) ∧
    (∀ s columnName, (∃ date, parseDateLiteral s columnName = .ok date) ↔
      ∃ year month day, DateOf s year month day) ∧
    ∀ s t year month day year' month' day', DateOf s year month day → DateOf t year' month' day' →
      valueOrdering (.date s) (.date t) =
        (compare year year').then ((compare month month').then (compare day day')) := by
  refine ⟨?_, ?_, ?_, ?_, ?_, ?_⟩
  · intro columnType
    exact ⟨valueOrdering_total columnType, fun v _ hne => (valueOrdering_null hne).1⟩
  · intro m n
    exact compare_toInt m n
  · intro m n scale
    rw [valueOrdering_same_scale, compare_decimalNumber (Nat.le_refl _), Nat.sub_self, pow_zero,
      mul_one, compare_toInt]
  · intro s t
    exact (compare_map_toNat s.toList t.toList).symm
  · intro s columnName
    constructor
    · rintro ⟨date, hdate⟩
      exact (parseDateLiteral_eq_ok hdate).2
    · intro h
      exact ⟨s, IsDate.parseDateLiteral h columnName⟩
  · intro s t year month day year' month' day' hs ht
    exact compareText_dates hs ht

theorem dates_column_order : valueOrdering (.date "2024-01-31") (.date "2024-02-01") = .lt := by
  have hfirst : DateOf "2024-01-31" 2024 1 31 := ⟨by decide, by decide, by decide, by decide⟩
  have hsecond : DateOf "2024-02-01" 2024 2 1 := ⟨by decide, by decide, by decide, by decide⟩
  have hdates := valueOrdering_column_order.2.2.2.2.2 _ _ _ _ _ _ _ _ hfirst hsecond
  rw [hdates]
  decide

end MysqlRust
