import MysqlRust.Query.Conversion
import MysqlRust.Query.Joins
import MysqlRust.Query.Where

/-! # Equality in an `ON` and in a `WHERE`

The index of a join finds a value that is the same; a comparison takes decimals of different
scales and values of different types for equal as well.
-/
namespace MysqlRust
open Relations List

section
variable {scale : UInt8} {s : String}

theorem dot_not_mem_i64ToString (n : Int64) : '.' ∉ (i64ToString n).toList := by
  rw [i64ToString_toList]
  intro hmem
  rcases mem_append.mp hmem with hsign | hdigit
  · split_ifs at hsign <;> simp at hsign
  · exact absurd (Nat.isDigit_of_mem_toDigits (by decide) (by decide) hdigit) (by decide)

theorem dot_mem_formatDecimal (h : scale ≠ 0) (unscaled : Int64) :
    '.' ∈ (formatDecimal unscaled scale).toList := by
  rw [formatDecimal, if_neg h, String.toList_ofList]
  exact mem_append_right _ mem_cons_self

theorem date_ne_i64ToString (h : IsDate s) (n : Int64) : s ≠ i64ToString n := by
  rintro rfl
  have hnone := h.shaped.parseI64
  rw [parseI64_i64ToString] at hnone
  cases hnone

theorem date_ne_formatDecimal (h : IsDate s) (unscaled : Int64) (scale : UInt8) :
    s ≠ formatDecimal unscaled scale := by
  by_cases hscale : scale = 0
  · rw [formatDecimal, if_pos hscale]
    exact date_ne_i64ToString h unscaled
  · rintro rfl
    exact h.shaped.dot (dot_mem_formatDecimal hscale unscaled)

theorem i64ToString_ne_formatDecimal (h : scale ≠ 0) (n unscaled : Int64) :
    i64ToString n ≠ formatDecimal unscaled scale := by
  intro heq
  exact dot_not_mem_i64ToString n (heq ▸ dot_mem_formatDecimal h unscaled)

variable {x y v : Value} {a b : ColumnType}

/-- Two columns whose values compare equal only when they are the same. -/
def ColumnType.joinsExactly : ColumnType → ColumnType → Bool
  | .decimal s, .decimal t => s = t
  | .int, .decimal s | .decimal s, .int => s ≠ 0
  | .int, .date | .date, .int | .decimal _, .date | .date, .decimal _ => true
  | .int, .varchar | .varchar, .int | .date, .varchar | .varchar, .date => false
  | .decimal _, .varchar | .varchar, .decimal _ => false
  | .int, .int | .varchar, .varchar | .date, .date => true

def sameValue (x y : Value) : Bool := x ≠ .null ∧ x = y

theorem compareText_eq_iff (s t : String) : compareText s t = .eq ↔ s = t := by
  rw [compareText, Std.LawfulEqOrd.compare_eq_iff_eq, String.toList_inj]

theorem compareValues_of_texts {x y : Value} {s t : String} (hx : x.toDisplayString = some s)
    (hy : y.toDisplayString = some t)
    (hmixed : valueOrdering x y = compareText (x.toDisplayString.getD "") (y.toDisplayString.getD "")) :
    compareValues x .eq y = decide (s = t) := by
  have hxnull : x ≠ .null := by
    rintro rfl
    cases hx
  have hynull : y ≠ .null := by
    rintro rfl
    cases hy
  rw [compareValues, if_neg (by simp [hxnull, hynull]), hmixed, hx, hy]
  simp [compareText_eq_iff]

theorem compareValues_null_left (op : CompareOp) (v : Value) : compareValues .null op v = false :=
  if_pos (.inl rfl)

theorem compareValues_null_right (v : Value) (op : CompareOp) : compareValues v op .null = false :=
  if_pos (.inr rfl)

theorem compareValues_of_ne {x y : Value} {s t : String} (hx : x.toDisplayString = some s)
    (hy : y.toDisplayString = some t)
    (hmixed : valueOrdering x y = compareText (x.toDisplayString.getD "") (y.toDisplayString.getD ""))
    (hst : s ≠ t) (hxy : x ≠ y) : compareValues x .eq y = sameValue x y := by
  rw [compareValues_of_texts hx hy hmixed, sameValue]
  simp [hst, hxy]

theorem hasType_int (h : v.HasType .int) : ∃ n, v = .int n := by
  cases v <;> first | exact ⟨_, rfl⟩ | cases h

theorem hasType_decimal {scale : UInt8} (h : v.HasType (.decimal scale)) :
    ∃ n, v = .decimal n scale := by
  cases v <;> first | exact ⟨_, congrArg _ h⟩ | cases h

theorem hasType_date (h : v.HasType .date) : ∃ s, v = .date s ∧ IsDate s := by
  cases v <;> first | exact ⟨_, rfl, h⟩ | cases h

/-- For these types a join key and `=` agree. -/
theorem compareValues_of_joinsExactly (h : a.joinsExactly b = true) (hx : x.HasType a)
    (hy : y.HasType b) : compareValues x .eq y = sameValue x y := by
  have hsame : a = b → compareValues x .eq y = sameValue x y := by
    rintro rfl
    rw [compareValues_eq_iff hx (.inr hy), sameValue]
    simp [hx.ne_null]
  cases a with
  | varchar => cases b <;> first | exact hsame rfl | cases h
  | int =>
    obtain ⟨n, rfl⟩ := hasType_int hx
    cases b with
    | int => exact hsame rfl
    | varchar => cases h
    | decimal scale =>
      obtain ⟨m, rfl⟩ := hasType_decimal hy
      exact compareValues_of_ne rfl rfl rfl
        (i64ToString_ne_formatDecimal (of_decide_eq_true h) n m) nofun
    | date =>
      obtain ⟨s, rfl, hs⟩ := hasType_date hy
      exact compareValues_of_ne rfl rfl rfl (date_ne_i64ToString hs n).symm nofun
  | decimal scale =>
    obtain ⟨n, rfl⟩ := hasType_decimal hx
    cases b with
    | decimal scale' => exact hsame (congrArg _ (of_decide_eq_true h))
    | varchar => cases h
    | int =>
      obtain ⟨m, rfl⟩ := hasType_int hy
      exact compareValues_of_ne rfl rfl rfl
        (i64ToString_ne_formatDecimal (of_decide_eq_true h) m n).symm nofun
    | date =>
      obtain ⟨s, rfl, hs⟩ := hasType_date hy
      exact compareValues_of_ne rfl rfl rfl (date_ne_formatDecimal hs n scale).symm nofun
  | date =>
    obtain ⟨s, rfl, hs⟩ := hasType_date hx
    cases b with
    | date => exact hsame rfl
    | varchar => cases h
    | int =>
      obtain ⟨n, rfl⟩ := hasType_int hy
      exact compareValues_of_ne rfl rfl rfl (date_ne_i64ToString hs n) nofun
    | decimal scale =>
      obtain ⟨n, rfl⟩ := hasType_decimal hy
      exact compareValues_of_ne rfl rfl rfl (date_ne_formatDecimal hs n scale) nofun

theorem compareValues_values (h : a.joinsExactly b = true) (hx : x ∈ a.values) (hy : y ∈ b.values) :
    compareValues x .eq y = sameValue x y := by
  rcases hx with rfl | hx
  · rw [compareValues_null_left]
    rfl
  · rcases hy with rfl | hy
    · rw [compareValues_null_right, sameValue]
      simp [hx.ne_null]
    · exact compareValues_of_joinsExactly h hx hy

theorem scaleUp_maxValue (d : UInt8) : scaleUp Int64.maxValue d = Int64.maxValue := by
  have hpow : (1 : Int) ≤ 10 ^ d.toNat := by
    have : (0 : Int) < 10 ^ d.toNat := by positivity
    omega
  rw [scaleUp_eq_saturateI64 (.inr (by decide))]
  refine Int64.toInt_inj.mp ?_
  rw [toInt_saturateI64, minValue_toInt, maxValue_toInt]
  have hle : (2 ^ 63 - 1 : Int) ≤ (2 ^ 63 - 1) * 10 ^ d.toNat := by nlinarith
  omega

theorem valueOrdering_maxValue (s t : UInt8) :
    valueOrdering (.decimal Int64.maxValue s) (.decimal Int64.maxValue t) = .eq := by
  have hself : compare Int64.maxValue Int64.maxValue = .eq := Std.ReflOrd.compare_self
  rcases Nat.lt_trichotomy s.toNat t.toNat with hlt | heq | hlt
  · rw [valueOrdering_finer hlt, scaleUp_maxValue, hself]
  · rw [UInt8.toNat_inj.mp heq, valueOrdering_same_scale, hself]
  · rw [valueOrdering_coarser hlt, scaleUp_maxValue, hself]

/-- Two values a comparison takes for equal and a join does not. -/
structure Differ (a b : ColumnType) (x y : Value) : Prop where
  left : x.HasType a
  right : y.HasType b
  equal : compareValues x .eq y = true
  different : x ≠ y

theorem exists_differ_varchar (htype : v.HasType a) (hv : v.toDisplayString = some s)
    (hne : v ≠ .varchar s)
    (hleft : valueOrdering v (.varchar s) = compareText (v.toDisplayString.getD "") s)
    (hright : valueOrdering (.varchar s) v = compareText s (v.toDisplayString.getD "")) :
    (∃ x y, Differ a .varchar x y) ∧ ∃ x y, Differ .varchar a x y := by
  have hforth : compareValues v .eq (.varchar s) = true := by
    rw [compareValues_of_texts hv rfl hleft]
    exact decide_eq_true rfl
  have hback : compareValues (.varchar s) .eq v = true := by
    rw [compareValues_of_texts rfl hv hright]
    exact decide_eq_true rfl
  exact ⟨⟨v, .varchar s, htype, trivial, hforth, hne⟩, .varchar s, v, trivial, htype, hback, hne.symm⟩

/-- Join keys and `=` differ somewhere for all other pairs of types. -/
theorem exists_differ (h : a.joinsExactly b = false) : ∃ x y, Differ a b x y := by
  have hdate : (Value.date "2024-01-01").HasType .date :=
    ⟨2024, 1, 1, by decide, by decide, by decide, by decide⟩
  have hint : (Value.int 1).HasType .int := trivial
  have hdecimal : ∀ scale, (Value.decimal 0 scale).HasType (.decimal scale) := fun _ => rfl
  cases a with
  | int =>
    cases b with
    | int | date => cases h
    | varchar => exact (exists_differ_varchar hint rfl nofun rfl rfl).1
    | decimal scale =>
      obtain rfl : scale = 0 := by simpa [ColumnType.joinsExactly] using h
      exact ⟨.int 1, .decimal 1 0, trivial, rfl, by decide, nofun⟩
  | varchar =>
    cases b with
    | varchar => cases h
    | int => exact (exists_differ_varchar hint rfl nofun rfl rfl).2
    | date => exact (exists_differ_varchar hdate rfl nofun rfl rfl).2
    | decimal scale => exact (exists_differ_varchar (hdecimal scale) rfl nofun rfl rfl).2
  | date =>
    cases b with
    | int | date | decimal => cases h
    | varchar => exact (exists_differ_varchar hdate rfl nofun rfl rfl).1
  | decimal scale =>
    cases b with
    | date => cases h
    | varchar => exact (exists_differ_varchar (hdecimal scale) rfl nofun rfl rfl).1
    | int =>
      obtain rfl : scale = 0 := by simpa [ColumnType.joinsExactly] using h
      exact ⟨.decimal 1 0, .int 1, rfl, trivial, by decide, nofun⟩
    | decimal scale' =>
      have hne : scale ≠ scale' := of_decide_eq_false h
      refine ⟨.decimal Int64.maxValue scale, .decimal Int64.maxValue scale', rfl, rfl, ?_, ?_⟩
      · simp [compareValues, valueOrdering_maxValue]
      · simpa using hne

variable {leftRows rightRows : List Row} {leftIdx rightIdx : Nat}

def whereJoin (leftRows : List Row) (leftIdx : Nat) (rightRows : List Row) (rightIdx width : Nat)
    (joinType : JoinType) : List Row :=
  nestedLoop (fun left right =>
      compareValues (left.getD leftIdx .null) .eq (right.getD rightIdx .null)) (· ++ ·)
    (unmatchedRow width joinType) leftRows rightRows

theorem CellsTyped.lt {columnType : ColumnType} {i : Nat} {rows : List Row}
    (h : CellsTyped i columnType rows) : ∀ row ∈ rows, i < row.length := by
  intro row hrow
  obtain ⟨v, hv, -⟩ := h row hrow
  exact (List.getElem?_eq_some_iff.mp hv).1

theorem cellsMatch_eq_sameValue {left right : Row} {x y : Value} (hx : left[leftIdx]? = some x)
    (hy : right[rightIdx]? = some y) :
    decide (CellsMatch leftIdx rightIdx left right) = sameValue x y := by
  rw [sameValue, decide_eq_decide, CellsMatch, hx, hy]
  simp [eq_comm]

/-- For all rows of two columns the join pairs what a comparison takes for equal, exactly when
the columns have the same type or types whose values have different texts. -/
theorem on_agrees_with_where_iff (a b : ColumnType) :
    (∀ leftRows leftIdx rightRows rightIdx width joinType, CellsTyped leftIdx a leftRows →
      CellsTyped rightIdx b rightRows →
      hashJoin leftRows leftIdx rightRows rightIdx width joinType =
        .ok (whereJoin leftRows leftIdx rightRows rightIdx width joinType)) ↔
      a.joinsExactly b = true := by
  constructor
  · intro hagrees
    by_contra hnot
    obtain ⟨x, y, hdiffer⟩ := exists_differ (Bool.eq_false_of_not_eq_true hnot)
    have hleft : CellsTyped 0 a [[x]] := fun row hrow =>
      ⟨x, mem_singleton.mp hrow ▸ rfl, .inr hdiffer.left⟩
    have hright : CellsTyped 0 b [[y]] := fun row hrow =>
      ⟨y, mem_singleton.mp hrow ▸ rfl, .inr hdiffer.right⟩
    have hjoin := hagrees [[x]] 0 [[y]] 0 1 .inner hleft hright
    have hmatch : decide (CellsMatch 0 0 [x] [y]) = false := by
      rw [cellsMatch_eq_sameValue rfl rfl]
      simp [sameValue, hdiffer.different]
    rw [hashJoin_eq_nestedLoop hleft.lt hright.lt] at hjoin
    simp [whereJoin, nestedLoop, matched, unmatchedRow, hmatch, hdiffer.equal] at hjoin
  · intro hexactly leftRows leftIdx rightRows rightIdx width joinType hleft hright
    rw [hashJoin_eq_nestedLoop hleft.lt hright.lt]
    refine congrArg Outcome.ok (nestedLoop_congr fun left hl right hr => ?_)
    obtain ⟨x, hx, hxtyped⟩ := hleft left hl
    obtain ⟨y, hy, hytyped⟩ := hright right hr
    rw [cellsMatch_eq_sameValue hx hy, getD_eq_getElem?_getD, getD_eq_getElem?_getD, hx, hy]
    exact (compareValues_values hexactly hxtyped hytyped).symm

/-- `1.0` and `1.00` compare equal, and are not joined. -/
theorem on_misses_equal_decimals : compareValues (.decimal 10 1) .eq (.decimal 100 2) = true ∧
      hashJoin [[.decimal 10 1]] 0 [[.decimal 100 2]] 0 1 .inner = .ok [] ∧
      compareValues (.int 1) .eq (.varchar "1") = true ∧
      hashJoin [[.int 1]] 0 [[.varchar "1"]] 0 1 .inner = .ok [] := by
  decide +kernel

end

end MysqlRust
