import MysqlRust.Protocol.Client
import MysqlRust.Protocol.Prepared

/-! # Parameters as a client sends them

What `COM_STMT_EXECUTE` carries behind its header, written from the protocol: a bitmap of the
parameters that are NULL, a type and a flag for each parameter, and the values of the others.
-/
namespace MysqlRust.Protocol
open Reader Outcome List

/-- The integer types that have an unsigned variant below 64 bits. -/
inductive IntWidth where
  | tiny
  | short
  | long
  deriving DecidableEq, Repr

namespace IntWidth

def bytes : IntWidth → Nat
  | tiny => 1
  | short => 2
  | long => 4

def code : IntWidth → UInt8
  | tiny => 0x01
  | short => 0x02
  | long => 0x03

end IntWidth

inductive StringType where
  | string
  | varString
  | varchar
  | blob
  deriving DecidableEq, Repr

def StringType.code : StringType → UInt8
  | string => 0xfe
  | varString => 0xfd
  | varchar => 0x0f
  | blob => 0xfc

structure IntParam where
  width : IntWidth
  unsigned : Bool
  value : Int
  low : (if unsigned then 0 else -(256 ^ width.bytes / 2)) ≤ value
  high : value < if unsigned then 256 ^ width.bytes else 256 ^ width.bytes / 2

/-- The type and the flag of a NULL, and the flag of a string, may be anything. -/
inductive Param where
  | null (typeByte flag : UInt8)
  | integer (n : IntParam)
  | longLong (n : Int64)
  | text (type : StringType) (flag : UInt8) (s : String)

namespace Param

def isNull : Param → Bool
  | null _ _ => true
  | _ => false

def cell : Param → Cell
  | null _ _ => .null
  | integer n => .int (Int64.ofInt n.value)
  | longLong n => .int n
  | text _ _ s => .text s

def typeByte : Param → UInt8
  | null typeByte _ => typeByte
  | integer n => n.width.code
  | longLong _ => 0x08
  | text type _ _ => type.code

def flag : Param → UInt8
  | null _ flag => flag
  | integer n => if n.unsigned then 0x80 else 0
  | longLong _ => 0
  | text _ flag _ => flag

def typeBytes (p : Param) : List UInt8 := [p.typeByte, p.flag]

def valueBytes : Param → List UInt8
  | null _ _ => []
  | integer n => leBytes n.width.bytes (n.value % 256 ^ n.width.bytes).toNat
  | longLong n => leBytes 8 n.toUInt64.toNat
  | text _ _ s => writeLenencStr s

/-- An integer is below half of its type's range, where the flag makes no difference. -/
def FitsSigned : Param → Prop
  | integer n => n.value < 256 ^ n.width.bytes / 2
  | _ => True

instance (p : Param) : Decidable p.FitsSigned := by
  unfold FitsSigned
  split <;> infer_instance

end Param

def executePayload (header : List UInt8) (params : List Param) (trailing : List UInt8) :
    List UInt8 :=
  header ++ ((Bitmap.positions Param.isNull 0 params ++ ([1] ++
    (params.flatMap Param.typeBytes ++ params.flatMap Param.valueBytes))) ++ trailing)

section Decoding
variable {s : String} {p : Param} {params : List Param}

/-- What is read for a parameter: every integer is taken for a signed one. -/
def Param.decoded : Param → Cell
  | .integer n => .int (Int64.ofInt (Int.bmod n.value (256 ^ n.width.bytes)))
  | p => p.cell

theorem toInt64_of_toInt {m : Int64} {n : Int} (h : m.toInt = n) : m = Int64.ofInt n := by
  rw [← h, Int64.ofInt_toInt]

theorem decodeBinaryValue_integer (width : IntWidth) {m : Nat} (h : m < 256 ^ width.bytes) :
    Exact (decodeBinaryValue width.code) (leBytes width.bytes m)
      (.int (Int64.ofInt (Int.bmod m (256 ^ width.bytes)))) := by
  have hvalue := leValue_leBytes_of_lt h
  cases width with
  | tiny =>
    have hcell : (UInt8.ofNat m).toInt8.toInt64 = Int64.ofInt (Int.bmod m 256) :=
      toInt64_of_toInt (by simp)
    have hread := (Exact.byte truncatedValue (UInt8.ofNat m)).bind_pure fun b =>
      Cell.int b.toInt8.toInt64
    rw [hcell] at hread
    exact hread
  | short =>
    have hcell : (UInt16.ofNat m).toInt16.toInt64 = Int64.ofInt (Int.bmod m 65536) :=
      toInt64_of_toInt (by simp)
    have hread := (Exact.slice truncatedValue (leBytes 2 m)).bind_pure fun b =>
      Cell.int (UInt16.ofNat (leValue b)).toInt16.toInt64
    rw [show leValue (leBytes 2 m) = m from hvalue, hcell] at hread
    exact hread
  | long =>
    have hcell : (UInt32.ofNat m).toInt32.toInt64 = Int64.ofInt (Int.bmod m 4294967296) :=
      toInt64_of_toInt (by simp)
    have hread := (Exact.slice truncatedValue (leBytes 4 m)).bind_pure fun b =>
      Cell.int (UInt32.ofNat (leValue b)).toInt32.toInt64
    rw [show leValue (leBytes 4 m) = m from hvalue, hcell] at hread
    exact hread

theorem decodeBinaryValue_longLong (n : Int64) :
    Exact (decodeBinaryValue 0x08) (leBytes 8 n.toUInt64.toNat) (.int n) := by
  have hread := (Exact.slice truncatedValue (leBytes 8 n.toUInt64.toNat)).bind_pure fun b =>
    Cell.int (UInt64.ofNat (leValue b)).toInt64
  rw [leValue_leBytes_of_lt n.toUInt64.toNat_lt, UInt64.ofNat_toNat] at hread
  exact hread

theorem decodeString_eq_err {buf : List UInt8} {pos : Nat} {e : Error}
    (h : Client.readStr buf pos = .err e) : ∃ e', decodeString buf pos = .err e' := by
  unfold Client.readStr at h
  rw [bind_apply] at h
  unfold decodeString
  cases hlen : readLenencInt buf pos with
  | err e' => exact ⟨e', rfl⟩
  | panic =>
    rw [hlen] at h
    cases h
  | ok p =>
    rw [hlen, ok_bind, bind_apply] at h
    rw [ok_bind]
    dsimp only
    split_ifs
    · exact ⟨_, rfl⟩
    · unfold slice at h ⊢
      split_ifs at h ⊢
      · rw [ok_bind] at h ⊢
        dsimp only at h ⊢
        cases hutf8 : String.fromUTF8? ⟨((buf.drop p.2).take p.1.toNat).toArray⟩ with
        | some s =>
          rw [hutf8] at h
          cases h
        | none => exact ⟨_, rfl⟩
      · exact ⟨_, rfl⟩

theorem decodeString_exact (h : (writeLenencStr s).length < 2 ^ 64) :
    Exact decodeString (writeLenencStr s) (.text s) where
  reads pre post := by
    rw [writeLenencStr, writeLenencBytes, length_append] at h
    have hlen : (UInt64.ofNat (utf8 s).length).toNat = (utf8 s).length :=
      UInt64.toNat_ofNat_of_lt' (Nat.lt_of_le_of_lt (Nat.le_add_left _ _) h)
    have hint := (readLenencInt_exact (UInt64.ofNat (utf8 s).length)).reads pre (utf8 s ++ post)
    have hslice := (Exact.slice (Error.protocol "COM_STMT_EXECUTE: truncated string value")
      (utf8 s)).reads (pre ++ writeLenencInt (UInt64.ofNat (utf8 s).length)) post
    rw [append_assoc, length_append] at hslice
    rw [writeLenencStr, writeLenencBytes, append_assoc, decodeString, hint, ok_bind]
    dsimp only
    rw [hlen, Nat.add_sub_cancel_left, if_neg (Nat.not_le.mpr h), hslice, ok_bind]
    simp only [fromUTF8?_utf8, length_append, Nat.add_assoc]
    rfl
  stops pre p hp hne := by
    have hutf8 := length_utf8_lt_writeLenencStr s
    obtain ⟨e, he⟩ := (Client.readStr_exact (hutf8.trans h)).stops pre p hp hne
    exact decodeString_eq_err he

theorem decodeBinaryValue_text (type : StringType) (h : (writeLenencStr s).length < 2 ^ 64) :
    Exact (decodeBinaryValue type.code) (writeLenencStr s) (.text s) := by
  cases type <;> exact decodeString_exact h

theorem decodeBinaryValue_decoded (hnull : p.isNull = false) (h : p.valueBytes.length < 2 ^ 64) :
    Exact (decodeBinaryValue p.typeByte) p.valueBytes p.decoded := by
  cases p with
  | null typeByte flag => cases hnull
  | integer n =>
    have hpos : (0 : Int) < 256 ^ n.width.bytes := by positivity
    have hnonneg := Int.emod_nonneg n.value hpos.ne'
    have hlt := Int.emod_lt_of_pos n.value hpos
    have hcast : ((n.value % 256 ^ n.width.bytes).toNat : Int) = n.value % 256 ^ n.width.bytes :=
      Int.toNat_of_nonneg hnonneg
    have hread := decodeBinaryValue_integer n.width (m := (n.value % 256 ^ n.width.bytes).toNat)
      ((Int.toNat_lt hnonneg).mpr (by push_cast; exact hlt))
    have hmod : Int.bmod (n.value % 256 ^ n.width.bytes) (256 ^ n.width.bytes) =
        Int.bmod n.value (256 ^ n.width.bytes) := by
      have := Int.emod_bmod n.value (256 ^ n.width.bytes)
      push_cast at this
      exact this
    rw [hcast, hmod] at hread
    exact hread
  | longLong n => exact decodeBinaryValue_longLong n
  | text type flag s => exact decodeBinaryValue_text type h

theorem readParam_exact {i : Nat} (hp : params[i]? = some p) (h : p.valueBytes.length < 2 ^ 64) :
    Exact (readParam (Bitmap.positions Param.isNull 0 params) (p.typeByte, i)) p.valueBytes
      p.decoded := by
  have hbit : Bitmap.contains (Bitmap.positions Param.isNull 0 params) i = p.isNull := by
    have hcontains := Bitmap.contains_positions Param.isNull 0 params i
    rwa [hp, Option.any_some] at hcontains
  unfold readParam
  rw [hbit]
  cases hnull : p.isNull with
  | false => exact decodeBinaryValue_decoded hnull h
  | true =>
    cases p with
    | null typeByte flag => exact .pure Cell.null
    | integer | longLong | text => cases hnull

theorem readParamType_exact (p : Param) : Exact readParamType p.typeBytes p.typeByte :=
  (Exact.slice _ p.typeBytes).bind_pure fun pair => pair.getD 0 0

theorem readParams_exact (h : ∀ p ∈ params, p.valueBytes.length < 2 ^ 64) :
    Exact (readParams params.length) (Bitmap.positions Param.isNull 0 params ++ ([1] ++
      (params.flatMap Param.typeBytes ++ params.flatMap Param.valueBytes)))
      (params.map Param.decoded) := by
  have hbitmap := Exact.slice (Error.protocol "COM_STMT_EXECUTE: truncated NULL bitmap")
    (Bitmap.positions Param.isNull 0 params)
  rw [Bitmap.length_positions, Nat.add_zero] at hbitmap
  refine hbitmap.bind ((Exact.byte _ 1).bind ?_)
  refine (Exact.many_map params fun p _ => readParamType_exact p).bind (Exact.each_map ?_)
  refine forall₂_iff_get.mpr ⟨by simp, fun i _ hi => ?_⟩
  have hread := readParam_exact (getElem?_eq_getElem hi) (h _ (getElem_mem hi))
  simpa using hread

end Decoding

theorem IntWidth.bytes_le (width : IntWidth) :
    (2 : Int) * (256 ^ width.bytes / 2) = 256 ^ width.bytes ∧ (256 : Int) ^ width.bytes ≤ 2 ^ 32 := by
  cases width <;> decide

theorem IntParam.range (n : IntParam) :
    -(256 ^ n.width.bytes / 2) ≤ n.value ∧ n.value < 256 ^ n.width.bytes := by
  have hpos : (0 : Int) < 256 ^ n.width.bytes := by positivity
  have hlow := n.low
  have hhigh := n.high
  split_ifs at hlow hhigh <;> omega

/-- Taken for signed, a number in the upper half of the range becomes negative. -/
theorem IntParam.bmod_eq_iff (n : IntParam) :
    Int.bmod n.value (256 ^ n.width.bytes) = n.value ↔ n.value < 256 ^ n.width.bytes / 2 := by
  obtain ⟨hlow, hhigh⟩ := n.range
  obtain ⟨hhalf, hle⟩ := n.width.bytes_le
  constructor
  · intro heq
    have hlt := Int.bmod_lt (x := n.value) (m := 256 ^ n.width.bytes) (by positivity)
    push_cast at hlt
    omega
  · intro hlt
    refine Int.bmod_eq_of_le ?_ ?_
    · push_cast
      exact hlow
    · push_cast
      omega

theorem decoded_eq_cell_iff (p : Param) : p.decoded = p.cell ↔ p.FitsSigned := by
  cases p with
  | integer n =>
    obtain ⟨hlow, hhigh⟩ := n.range
    obtain ⟨hhalf, hle⟩ := n.width.bytes_le
    have hmod := Int.le_bmod (x := n.value) (m := 256 ^ n.width.bytes) (by positivity)
    have hmod' := Int.bmod_lt (x := n.value) (m := 256 ^ n.width.bytes) (by positivity)
    push_cast at hmod hmod'
    rw [Param.decoded, Param.cell, Param.FitsSigned, Cell.int.injEq, ← n.bmod_eq_iff,
      ← Int64.toInt_inj, Int64.toInt_ofInt_of_le (by omega) (by omega),
      Int64.toInt_ofInt_of_le (by omega) (by omega)]
  | null | longLong | text => exact iff_of_true rfl trivial

theorem length_valueBytes_le {params : List Param} {p : Param} (h : p ∈ params) :
    p.valueBytes.length ≤ (params.flatMap Param.valueBytes).length := by
  obtain ⟨before, after, rfl⟩ := append_of_mem h
  simp only [flatMap_append, flatMap_cons, length_append]
  omega

/-- The parameters arrive as they were sent just when the unsigned ones among them are below
half of their range. -/
theorem parseExecuteParams_iff {header : List UInt8} (hheader : header.length = 10)
    (params : List Param) (trailing : List UInt8)
    (hlen : (executePayload header params trailing).length < 2 ^ 64) :
    parseExecuteParams (executePayload header params trailing) params.length =
        .ok (params.map Param.cell) ↔
      ∀ p ∈ params, p.FitsSigned := by
  have hvalues : ∀ p ∈ params, p.valueBytes.length < 2 ^ 64 := by
    intro p hp
    have hle := length_valueBytes_le hp
    simp only [executePayload, length_append] at hlen
    omega
  have hparse : parseExecuteParams (executePayload header params trailing) params.length =
      .ok (params.map Param.decoded) := by
    rw [parseExecuteParams]
    split_ifs with hnil
    · rw [length_eq_zero_iff.mp hnil]
      rfl
    · rw [executePayload, ← hheader, (readParams_exact hvalues).reads]
      rfl
  rw [hparse, Outcome.ok.injEq, map_inj_left]
  exact forall₂_congr fun p _ => decoded_eq_cell_iff p

theorem parseExecuteParams_signed : parseExecuteParams (executePayload (List.replicate 10 0)
        [.null 0x03 0, .integer ⟨.tiny, false, -5, by decide, by decide⟩,
          .integer ⟨.short, true, 500, by decide, by decide⟩, .text .blob 0 "a"] []) 4 =
      .ok [.null, .int (-5), .int 500, .text "a"] :=
  (parseExecuteParams_iff (by decide) _ [] (by decide +kernel)).mpr (by decide)

/-- The `TINYINT UNSIGNED` 200 arrives as -56. -/
theorem parseExecuteParams_unsigned : parseExecuteParams (executePayload (List.replicate 10 0)
        [.integer ⟨.tiny, true, 200, by decide, by decide⟩] []) 1 = .ok [.int (-56)] ∧
      (Param.integer ⟨.tiny, true, 200, by decide, by decide⟩).cell = .int 200 := by
  decide +kernel

end MysqlRust.Protocol
