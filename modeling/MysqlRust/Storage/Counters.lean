import MysqlRust.Storage.Admission

/-! # The counters of tables

The counter of a table is moved past every integer that is stored in its column, except past
the largest one, where the addition wraps around. So it stays above all stored values that
are not the largest.
-/
namespace MysqlRust

open Outcome

section Words
variable {a b c : Int64}

theorem toInt_succ (h : c.toInt < Int64.maxValue.toInt) : (c + 1).toInt = c.toInt + 1 := by
  have hmax : Int64.maxValue.toInt = 2 ^ 63 - 1 := by decide
  have hone : (1 : Int64).toInt = 1 := by decide
  have hlt := Int64.toInt_lt c
  have hle := Int64.le_toInt c
  rw [hmax] at h
  rw [Int64.toInt_add, hone, Int.bmod_eq_of_le]
  · omega
  · omega

theorem toInt_add_ofNat {k : Nat} (h : c.toInt + k ≤ Int64.maxValue.toInt) :
    (c + Int64.ofNat k).toInt = c.toInt + k := by
  induction k with
  | zero => simp
  | succ k ih =>
    have hk := ih (by push_cast at h; omega)
    have hsucc : c + Int64.ofNat (k + 1) = c + Int64.ofNat k + 1 := by
      rw [Int64.ofNat_add, ← Int64.add_assoc]
      rfl
    rw [hsucc, toInt_succ, hk]
    · push_cast
      omega
    · rw [hk]
      push_cast at h
      omega

theorem toInt_max : (max a b).toInt = max a.toInt b.toInt := by
  change (if a ≤ b then b else a).toInt = _
  rw [max_def]
  simp only [Int64.le_iff_toInt_le]
  split <;> rfl

theorem eq_maxValue (h : Int64.maxValue.toInt ≤ c.toInt) : c = Int64.maxValue := by
  have hmax : Int64.maxValue.toInt = 2 ^ 63 - 1 := by decide
  have hlt := Int64.toInt_lt c
  refine Int64.toInt_inj.mp ?_
  omega

end Words

namespace Table
variable {t t' : Table} {row : Row}

/-- The counter is above every integer in its column that is not the largest. -/
def Counted (t : Table) : Prop :=
  ∀ i next, t.autoIncrement = some (i, next) → ∀ row ∈ t.rows, ∀ v, row[i]? = some (.int v) →
    v.toInt < next.toInt ∨ v = Int64.maxValue

def Indexed (t : Table) : Prop :=
  ∀ i, t.primaryKeyIndex = some i → ∀ key ∈ t.index, ∃ row ∈ t.rows, row[i]? = some key

theorem pushTrusted_counter (h : t.pushTrusted row = .ok t') :
    t.counterWith row = .ok t'.autoIncrement := by
  obtain ⟨index, -, h⟩ := bind_eq_ok.mp h
  obtain ⟨counter, hcounter, h⟩ := bind_eq_ok.mp h
  cases h
  exact hcounter

theorem counterWith_some {i : Nat} {next : Int64} (h : t.counterWith row = .ok (some (i, next))) :
    ∃ old, t.autoIncrement = some (i, old) ∧ old.toInt ≤ next.toInt ∧
      ∀ v, row[i]? = some (.int v) → v.toInt < next.toInt ∨ v = Int64.maxValue := by
  unfold counterWith at h
  split at h
  · rename_i j old hauto
    obtain ⟨cell, hcell, h⟩ := bind_eq_ok.mp h
    rw [index_eq_ok] at hcell
    cases cell with
    | int v =>
      cases h
      refine ⟨old, hauto, by rw [toInt_max]; exact le_max_left _ _, fun w hw => ?_⟩
      cases hcell.symm.trans hw
      by_cases hmax : v.toInt < Int64.maxValue.toInt
      · refine .inl (lt_of_lt_of_le (Int.lt_succ v.toInt) ?_)
        rw [toInt_max, toInt_succ hmax]
        exact le_max_right _ _
      · exact .inr (eq_maxValue (Int.not_lt.mp hmax))
    | null | varchar | decimal | date =>
      cases h
      refine ⟨next, hauto, le_rfl, fun w hw => ?_⟩
      cases hcell.symm.trans hw
  · cases h

theorem counted_grown : Grown Counted where
  new columns primaryKey := by simp [Counted, Table.new]
  push t row t' h hpush := by
    intro i next hauto r hr v hv
    have hcounter := pushTrusted_counter hpush
    rw [hauto] at hcounter
    obtain ⟨old, hold, hle, hrow⟩ := counterWith_some hcounter
    rw [(pushTrusted_eq_ok hpush).2.2] at hr
    rcases List.mem_append.mp hr with hr | hr
    · exact (h i old hold r hr v hv).imp_left fun hlt => lt_of_lt_of_le hlt hle
    · rw [List.mem_singleton.mp hr] at hv
      exact hrow v hv

theorem indexed_grown : Grown Indexed where
  new columns primaryKey _ _ _ hkey := absurd hkey Finmap.notMem_empty
  push t row t' h hpush := by
    obtain ⟨-, hkey, hrows⟩ := pushTrusted_eq_ok hpush
    intro i hi key hmem
    rw [hkey] at hi
    rw [hrows]
    rcases indexWith_eq_ok (pushTrusted_index hpush) with ⟨j, key', hj, hcell, hindex⟩ | ⟨hnone, -⟩
    · cases hi.symm.trans hj
      rw [hindex, Finmap.mem_insert] at hmem
      rcases hmem with rfl | hmem
      · exact ⟨row, by simp, hcell⟩
      · obtain ⟨r, hr, hr'⟩ := h i hi key hmem
        exact ⟨r, List.mem_append_left _ hr, hr'⟩
    · cases hi.symm.trans hnone

end Table

end MysqlRust
