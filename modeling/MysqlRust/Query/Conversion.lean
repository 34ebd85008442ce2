import Mathlib.Data.List.TakeWhile
import Mathlib.Tactic.IntervalCases
import MysqlRust.Query.Executor
import MysqlRust.Storage.Typing

/-! # Stored values and literals

`ALTER TABLE` converts stored values, `INSERT` converts literals. The two agree on a value and
the literal that denotes it; only dates are converted along different ways.
-/
namespace MysqlRust

open List

theorem utf8_inj {s t : String} (h : utf8 s = utf8 t) : s = t := by
  have hs := fromUTF8?_utf8 s
  rw [h, fromUTF8?_utf8] at hs
  exact (Option.some.inj hs).symm

theorem utf8EncodeChar_ascii {b : UInt8} (h : b.toNat < 128) :
    String.utf8EncodeChar (Char.ofNat b.toNat) = [b] := by
  have hvalid : b.toNat.isValidChar := .inl (by omega)
  have hval : (Char.ofNat b.toNat).val.toNat = b.toNat := by
    rw [Char.ofNat, dif_pos hvalid]
    exact UInt32.toNat_ofNatLT
  rw [String.utf8EncodeChar, hval]
  simp [show b.toNat ≤ 127 by omega]

theorem toList_of_ascii {s : String} {bytes : List UInt8} (h : utf8 s = bytes)
    (hascii : ∀ b ∈ bytes, b.toNat < 128) : s.toList = bytes.map fun b => Char.ofNat b.toNat := by
  have hbytes : utf8 (String.ofList (bytes.map fun b => Char.ofNat b.toNat)) = bytes := by
    rw [utf8_eq_flatMap, String.toList_ofList, flatMap_map]
    calc bytes.flatMap (fun b => String.utf8EncodeChar (Char.ofNat b.toNat))
        = bytes.flatMap fun b => [b] := by
          refine flatMap_congr fun b hb => ?_
          exact utf8EncodeChar_ascii (hascii b hb)
      _ = bytes := flatMap_singleton' bytes
  rw [utf8_inj (h.trans hbytes.symm), String.toList_ofList]

section Dates
variable {s : String} {b : UInt8} {cs : List Char}

structure DateShaped (cs : List Char) : Prop where
  digit : ∃ c rest, cs = c :: rest ∧ c.isDigit = true
  dash : '-' ∈ cs
  dot : '.' ∉ cs

theorem isDigit_of_isAsciiDigit (h : isAsciiDigit b = true) :
    (Char.ofNat b.toNat).isDigit = true := by
  have hb : 48 ≤ b.toNat ∧ b.toNat ≤ 57 := by
    simpa [isAsciiDigit, UInt8.le_iff_toNat_le] using h
  obtain ⟨hle, hge⟩ := hb
  generalize b.toNat = n at hle hge
  interval_cases n <;> decide

theorem mem_dateText {year month day : Nat} (h : b ∈ dateText year month day) :
    isAsciiDigit b = true ∨ b = 45 := by
  simp only [dateText, mem_append, mem_cons] at h
  rcases h with h | rfl | h | rfl | h
  · exact .inl (isAsciiDigit_of_mem_paddedDigits h)
  · exact .inr rfl
  · exact .inl (isAsciiDigit_of_mem_paddedDigits h)
  · exact .inr rfl
  · exact .inl (isAsciiDigit_of_mem_paddedDigits h)

theorem IsDate.shaped (h : IsDate s) : DateShaped s.toList := by
  obtain ⟨year, month, day, -, -, -, hbytes⟩ := h
  have hascii : ∀ b ∈ dateText year month day, b.toNat < 128 := by
    intro b hb
    rcases mem_dateText hb with hdigit | rfl
    · simp only [isAsciiDigit, Bool.and_eq_true, decide_eq_true_eq, UInt8.le_iff_toNat_le] at hdigit
      exact Nat.lt_of_le_of_lt hdigit.2 (by decide)
    · decide
  rw [toList_of_ascii hbytes hascii]
  constructor
  · obtain ⟨b, rest, hsplit⟩ := exists_cons_of_ne_nil
      (show paddedDigits 4 year ≠ [] by simp [paddedDigits])
    have hb : b ∈ paddedDigits 4 year := by simp [hsplit]
    have hdigit := isDigit_of_isAsciiDigit (isAsciiDigit_of_mem_paddedDigits hb)
    rw [dateText, hsplit, cons_append, map_cons]
    exact ⟨Char.ofNat b.toNat, _, rfl, hdigit⟩
  · exact mem_map.mpr ⟨45, by simp [dateText], rfl⟩
  · intro hdot
    obtain ⟨b, hb, hchar⟩ := mem_map.mp hdot
    rcases mem_dateText hb with hdigit | rfl
    · have h := isDigit_of_isAsciiDigit hdigit
      rw [hchar] at h
      exact absurd h (by decide)
    · exact absurd hchar (by decide)

theorem DateShaped.not_digits (h : DateShaped cs) : cs.all Char.isDigit = false := by
  rw [all_eq_false]
  exact ⟨'-', h.dash, by decide⟩

theorem DateShaped.parseI64 (h : DateShaped s.toList) : MysqlRust.parseI64 s = none := by
  obtain ⟨c, rest, hcs, hdigit⟩ := h.digit
  have hnone : digitsValue s.toList = none := by
    rw [digitsValue, if_neg]
    rw [h.not_digits]
    simp
  unfold MysqlRust.parseI64
  split
  · rename_i heq
    rw [hcs] at heq
    cases heq
    exact absurd hdigit (by decide)
  · rename_i heq
    rw [hcs] at heq
    cases heq
    exact absurd hdigit (by decide)
  · rw [hnone]
    rfl

theorem splitOnce_of_not_mem {sep : Char} (h : sep ∉ cs) : splitOnce sep cs = none := by
  have hspan : cs.span (fun c => decide (c ≠ sep)) = (cs, []) := by
    have hall : ∀ c ∈ cs, decide (c ≠ sep) = true := by
      intro c hc
      exact decide_eq_true fun heq => h (heq ▸ hc)
    rw [span_eq_takeWhile_dropWhile, dropWhile_eq_nil_iff.mpr hall, takeWhile_eq_self_iff.mpr hall]
  simp only [splitOnce, hspan]

theorem DateShaped.parseDecimalLiteral (h : DateShaped s.toList) (columnName : String) :
    ∃ e, MysqlRust.parseDecimalLiteral s columnName = .err e := by
  obtain ⟨c, rest, hcs, hdigit⟩ := h.digit
  unfold MysqlRust.parseDecimalLiteral
  dsimp only
  split
  · rename_i heq
    rw [hcs] at heq
    cases heq
    exact absurd hdigit (by decide)
  · have hne : s.toList.isEmpty = false := by
      rw [hcs]
      rfl
    simp only [splitOnce_of_not_mem h.dot, Option.getD_none, hne, h.not_digits]
    exact ⟨_, rfl⟩

end Dates

def Value.literal : Value → Expr
  | .int n => .integer n
  | .varchar s => .string s
  | .decimal unscaled scale => .decimal unscaled scale
  | .date s => .string s
  | .null => .null

/-- A typed value is converted to a column type exactly as the literal that denotes it. -/
theorem retypeValue_eq_coerce {v : Value} (hv : v = .null ∨ ∃ columnType, v.HasType columnType)
    (newType : ColumnType) (columnName : String) (w : Value) :
    retypeValue v newType columnName = .ok w ↔ coerce v.literal newType columnName = .ok w := by
  cases v with
  | null => exact Iff.rfl
  | int n =>
    cases newType with
    | int | varchar | decimal => exact Iff.rfl
    | date => simp [retypeValue, Value.literal, coerce]
  | varchar s => cases newType <;> exact Iff.rfl
  | decimal unscaled scale =>
    cases newType with
    | int | varchar | decimal => exact Iff.rfl
    | date => simp [retypeValue, Value.literal, coerce]
  | date s =>
    have hdate : IsDate s := by
      obtain ⟨columnType, htype⟩ := hv.resolve_left (by simp)
      cases columnType with
      | date => exact htype
      | int | varchar | decimal => exact htype.elim
    cases newType with
    | varchar => exact Iff.rfl
    | date =>
      simp only [retypeValue, Value.literal, coerce, hdate.parseDateLiteral]
      exact Iff.rfl
    | int =>
      simp [retypeValue, Value.literal, coerce, hdate.shaped.parseI64, okOr]
    | decimal scale =>
      obtain ⟨e, he⟩ := hdate.shaped.parseDecimalLiteral columnName
      simp [retypeValue, Value.literal, coerce, he]

/-- A date becomes a text as its literal does. -/
theorem retypeValue_date_text :
    retypeValue (.date "2024-01-31") .varchar "c" = .ok (.varchar "2024-01-31") ↔
      coerce (.string "2024-01-31") .varchar "c" = .ok (.varchar "2024-01-31") := by
  have hdate : IsDate "2024-01-31" := ⟨2024, 1, 31, by decide, by decide, by decide, by decide⟩
  have htyped : (Value.date "2024-01-31").HasType .date := hdate
  exact retypeValue_eq_coerce (.inr ⟨.date, htyped⟩) .varchar "c" (.varchar "2024-01-31")

end MysqlRust
