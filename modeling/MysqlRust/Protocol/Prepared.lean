import MysqlRust.Protocol.ResultSet

/-! # Prepared statements on the wire

The answer to `COM_STMT_PREPARE`, and the parameter values of `COM_STMT_EXECUTE`: a NULL
bitmap, a type for each parameter, and the values of those that are not NULL.
-/
namespace MysqlRust.Protocol
open Reader Outcome

structure StmtPrepareOk where
  statementId : UInt32
  numColumns : UInt16
  numParams : UInt16
  deriving DecidableEq, Repr

namespace StmtPrepareOk

def payload (ok : StmtPrepareOk) : List UInt8 :=
  0x00 :: leBytes 4 ok.statementId.toNat ++ leBytes 2 ok.numColumns.toNat ++
    leBytes 2 ok.numParams.toNat ++ [0x00] ++ leBytes 2 0

def toPacket (ok : StmtPrepareOk) (sequenceId : UInt8) : Result Packet :=
  .ok ⟨sequenceId, ok.payload⟩

end StmtPrepareOk

def truncatedValue : Error := .protocol "COM_STMT_EXECUTE: truncated parameter value"

def hexByte (b : UInt8) : String := "0x" ++ String.ofList (Nat.toDigits 16 b.toNat)

/-- A length-encoded string; its end is computed in `usize`. -/
def decodeString : Reader Error Cell := fun buf pos => do
  let (len, start) ← readLenencInt buf pos
  if 2 ^ 64 ≤ start - pos + len.toNat then
    .err (.protocol "COM_STMT_EXECUTE: string length overflow")
  else do
    let (bytes, stop) ← slice len.toNat
      (.protocol "COM_STMT_EXECUTE: truncated string value") buf start
    match String.fromUTF8? ⟨bytes.toArray⟩ with
    | some s => pure (.text s, stop)
    | none => .err (.protocol "COM_STMT_EXECUTE: non-UTF-8 string parameter")

def decodeBinaryValue (typeByte : UInt8) : Reader Error Cell :=
  if typeByte = 0x06 then pure .null
  else if typeByte = 0x01 then do
    let b ← byte truncatedValue
    pure (.int b.toInt8.toInt64)
  else if typeByte = 0x02 then do
    let b ← slice 2 truncatedValue
    pure (.int (UInt16.ofNat (leValue b)).toInt16.toInt64)
  else if typeByte = 0x03 then do
    let b ← slice 4 truncatedValue
    pure (.int (UInt32.ofNat (leValue b)).toInt32.toInt64)
  else if typeByte = 0x08 then do
    let b ← slice 8 truncatedValue
    pure (.int (UInt64.ofNat (leValue b)).toInt64)
  else if typeByte = 0xfe ∨ typeByte = 0xfd ∨ typeByte = 0x0f ∨ typeByte = 0xfc then decodeString
  else fail (.protocol s!"COM_STMT_EXECUTE: unsupported parameter type {hexByte typeByte}")

def readParamType : Reader Error UInt8 := do
  let pair ← slice 2 (.protocol "COM_STMT_EXECUTE: truncated parameter type")
  pure (pair.getD 0 0)

def readParam (nullBitmap : List UInt8) (param : UInt8 × Nat) : Reader Error Cell :=
  if Bitmap.contains nullBitmap param.2 then pure .null else decodeBinaryValue param.1

def readParams (numParams : Nat) : Reader Error (List Cell) := do
  let nullBitmap ← slice ((numParams + 7) / 8)
    (.protocol "COM_STMT_EXECUTE: truncated NULL bitmap")
  let newParamsBound ← byte (.protocol "COM_STMT_EXECUTE: missing new-params-bound flag")
  if newParamsBound ≠ 1 then
    fail (.protocol "COM_STMT_EXECUTE without freshly-bound parameter types is not supported")
  else do
    let types ← many readParamType numParams
    each (readParam nullBitmap) types.zipIdx

/-- The parameters behind the ten bytes of command, statement id, flags and iteration count. -/
def parseExecuteParams (payload : List UInt8) (numParams : Nat) : Result (List Cell) :=
  if numParams = 0 then .ok [] else Prod.fst <$> readParams numParams payload 10

variable {numParams : Nat} {payload : List UInt8}

theorem length_readParams {pos : Nat} {p : List Cell × Nat}
    (h : readParams numParams payload pos = .ok p) : p.1.length = numParams := by
  obtain ⟨_, -, h⟩ := bind_eq_ok.mp h
  obtain ⟨_, -, h⟩ := bind_eq_ok.mp h
  dsimp only at h
  split_ifs at h
  · cases h
  · obtain ⟨types, htypes, h⟩ := bind_eq_ok.mp h
    rw [length_each h, List.length_zipIdx, length_many htypes]

theorem length_parseExecuteParams {cells : List Cell}
    (h : parseExecuteParams payload numParams = .ok cells) : cells.length = numParams := by
  unfold parseExecuteParams at h
  split_ifs at h with hzero
  · cases h
    exact hzero.symm
  · obtain ⟨p, hread, rfl⟩ := map_eq_ok.mp h
    exact length_readParams hread

end MysqlRust.Protocol
