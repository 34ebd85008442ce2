import MysqlRust.Foundation.ByteCursor
import MysqlRust.Storage.Value

/-! # Length-encoded integers and strings

An integer below 251 is one byte; larger ones follow a byte that says whether two, three or
eight bytes are to come. The bytes 251 and 255 start no integer.
-/
namespace MysqlRust.Protocol

section
open Reader

def readLenencInt : Reader Error UInt64 := do
  let first ← byte (.protocol "lenenc-int: empty buffer")
  if first ≤ 0xfa then pure first.toUInt64
  else if first = 0xfb then fail (.protocol "lenenc-int: unexpected NULL marker (0xfb)")
  else if first = 0xfc then do
    let b ← slice 2 (.protocol "lenenc-int: truncated 2-byte value")
    pure (UInt64.ofNat (leValue b))
  else if first = 0xfd then do
    let b ← slice 3 (.protocol "lenenc-int: truncated 3-byte value")
    pure (UInt64.ofNat (leValue b))
  else if first = 0xfe then do
    let b ← slice 8 (.protocol "lenenc-int: truncated 8-byte value")
    pure (UInt64.ofNat (leValue b))
  else fail (.protocol "lenenc-int: unexpected error marker (0xff)")

def writeLenencInt (value : UInt64) : List UInt8 :=
  if value < 0xfb then [value.toUInt8]
  else if value ≤ 0xFFFF then 0xfc :: leBytes 2 value.toNat
  else if value ≤ 0xFFFFFF then 0xfd :: leBytes 3 value.toNat
  else 0xfe :: leBytes 8 value.toNat

theorem toNat_toUInt8_of_lt {value : UInt64} (h : value < 0xfb) :
    value.toNat < 0xfb ∧ value.toUInt8.toNat = value.toNat := by
  have h : value.toNat < 0xfb := UInt64.lt_iff_toNat_lt.mp h
  rw [UInt64.toNat_toUInt8]
  omega

/-- The bytes 251 and 255 start no integer, and 254 starts only those too large for three
bytes. -/
theorem writeLenencInt_eq_cons (value : UInt64) : ∃ first rest,
    writeLenencInt value = first :: rest ∧ first ≠ 0xfb ∧ first ≠ 0xff ∧
      (first = 0xfe → 0xFFFFFF < value.toNat) := by
  unfold writeLenencInt
  split
  · rename_i hvalue
    obtain ⟨hlt, hbyte⟩ := toNat_toUInt8_of_lt hvalue
    have hne : ∀ b : UInt8, 0xfb ≤ b.toNat → value.toUInt8 ≠ b := by
      rintro b hb rfl
      omega
    exact ⟨_, [], rfl, hne 0xfb (by decide), hne 0xff (by decide),
      fun h => absurd h (hne 0xfe (by decide))⟩
  · split
    · exact ⟨_, _, rfl, by decide, by decide, fun h => by cases h⟩
    · split
      · exact ⟨_, _, rfl, by decide, by decide, fun h => by cases h⟩
      · rename_i hvalue
        refine ⟨_, _, rfl, by decide, by decide, fun _ => ?_⟩
        exact Nat.not_le.mp fun hle => hvalue (UInt64.le_iff_toNat_le.mpr hle)

def lenencIntLen (value : UInt64) : Nat :=
  if value < 0xfb then 1 else if value ≤ 0xFFFF then 3 else if value ≤ 0xFFFFFF then 4 else 9

theorem length_writeLenencInt (value : UInt64) :
    (writeLenencInt value).length = lenencIntLen value := by
  unfold writeLenencInt lenencIntLen
  split_ifs <;> simp

theorem length_writeLenencInt_le (value : UInt64) : (writeLenencInt value).length ≤ 9 := by
  rw [length_writeLenencInt]
  unfold lenencIntLen
  split_ifs <;> decide

def writeLenencBytes (bytes : List UInt8) : List UInt8 :=
  writeLenencInt (UInt64.ofNat bytes.length) ++ bytes

def writeLenencStr (s : String) : List UInt8 := writeLenencBytes (utf8 s)

theorem length_utf8_lt_writeLenencStr (s : String) :
    (utf8 s).length < (writeLenencStr s).length := by
  obtain ⟨first, rest, hint, -⟩ := writeLenencInt_eq_cons (UInt64.ofNat (utf8 s).length)
  simp only [writeLenencStr, writeLenencBytes, hint, List.length_append, List.length_cons]
  omega

theorem writeLenencStr_eq_cons {s : String} (h : (utf8 s).length ≤ 0xFFFFFF) : ∃ first rest,
    writeLenencStr s = first :: rest ∧ first ≠ 0xfb ∧ first ≠ 0xfe ∧ first ≠ 0xff := by
  have hlength : (UInt64.ofNat (utf8 s).length).toNat = (utf8 s).length :=
    UInt64.toNat_ofNat_of_lt' (lt_of_le_of_lt h (by decide))
  obtain ⟨first, rest, hint, hnull, herr, hlong⟩ :=
    writeLenencInt_eq_cons (UInt64.ofNat (utf8 s).length)
  refine ⟨first, rest ++ utf8 s, ?_, hnull, fun hfirst => ?_, herr⟩
  · rw [writeLenencStr, writeLenencBytes, hint, List.cons_append]
  · have hlt := hlong hfirst
    omega

theorem leValue_exact (e : Error) {k : Nat} {value : UInt64} (h : value.toNat < 256 ^ k) : Exact (do
      let b ← slice k e
      pure (UInt64.ofNat (leValue b))) (leBytes k value.toNat) value := by
  have hslice := (Exact.slice e (leBytes k value.toNat)).bind_pure fun b =>
    UInt64.ofNat (leValue b)
  rw [leValue_leBytes_of_lt h, UInt64.ofNat_toNat, leBytes_length] at hslice
  exact hslice

/-- Length-encoded integers are read back. -/
theorem readLenencInt_exact (value : UInt64) :
    Exact readLenencInt (writeLenencInt value) value := by
  have hlt := value.toNat_lt
  unfold writeLenencInt
  split
  · rename_i hvalue
    obtain ⟨hvalue, hbyte⟩ := toNat_toUInt8_of_lt hvalue
    have hfirst : value.toUInt8 ≤ 0xfa := by
      rw [UInt8.le_iff_toNat_le, hbyte]
      exact Nat.le_of_lt_succ hvalue
    have hback : value.toUInt8.toUInt64 = value := by
      refine UInt64.toNat_inj.mp ?_
      rw [UInt8.toNat_toUInt64, hbyte]
    refine .tagged _ _ ?_
    rw [if_pos hfirst, hback]
    exact .pure value
  · split
    · rename_i hvalue
      have hvalue : value.toNat ≤ 0xFFFF := UInt64.le_iff_toNat_le.mp hvalue
      exact .tagged _ _ (leValue_exact _ (by omega))
    · split
      · rename_i hvalue
        have hvalue : value.toNat ≤ 0xFFFFFF := UInt64.le_iff_toNat_le.mp hvalue
        exact .tagged _ _ (leValue_exact _ (by omega))
      · exact .tagged _ _ (leValue_exact _ (by omega))

end

end MysqlRust.Protocol
