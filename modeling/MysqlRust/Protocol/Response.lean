import MysqlRust.Protocol.Lenenc
import MysqlRust.Protocol.Packet

/-! # OK and ERR packets

The responses that end an exchange, and the data sent in the middle of an authentication.
-/
namespace MysqlRust.Protocol

def fit (what : String) (sequenceId : UInt8) (payload : List UInt8) : Result Packet :=
  if payload.length > maxPayload then
    .err (.protocol s!"{what} payload of {payload.length} bytes exceeds single-packet maximum")
  else .ok ⟨sequenceId, payload⟩

variable {what : String} {sequenceId : UInt8}

theorem fit_of_le {payload : List UInt8} (h : payload.length ≤ maxPayload) :
    fit what sequenceId payload = .ok ⟨sequenceId, payload⟩ :=
  if_neg (Nat.not_lt.mpr h)

theorem fit_eq_ok {payload : List UInt8} {packet : Packet}
    (h : fit what sequenceId payload = .ok packet) :
    packet = ⟨sequenceId, payload⟩ ∧ payload.length ≤ maxPayload := by
  unfold fit at h
  split_ifs at h with hlen
  exact ⟨(Outcome.ok.inj h).symm, Nat.not_lt.mp hlen⟩

structure OkPacket where
  affectedRows : UInt64
  lastInsertId : UInt64
  statusFlags : UInt16
  warnings : UInt16
  info : String
  deriving DecidableEq, Repr

namespace OkPacket

def new : OkPacket := ⟨0, 0, 0x0002, 0, ""⟩

def payload (ok : OkPacket) : List UInt8 :=
  0x00 :: writeLenencInt ok.affectedRows ++ writeLenencInt ok.lastInsertId ++
    leBytes 2 ok.statusFlags.toNat ++ leBytes 2 ok.warnings.toNat ++ utf8 ok.info

def toPacket (ok : OkPacket) (sequenceId : UInt8) : Result Packet :=
  fit "OK" sequenceId ok.payload

end OkPacket

structure AuthMoreData where
  data : List UInt8
  deriving DecidableEq, Repr

namespace AuthMoreData

def fastAuthSuccess : AuthMoreData := ⟨[0x03]⟩

def toPacket (more : AuthMoreData) (sequenceId : UInt8) : Result Packet :=
  fit "AuthMoreData" sequenceId (0x01 :: more.data)

end AuthMoreData

structure ErrPacket where
  errorCode : UInt16
  sqlState : String
  message : String
  deriving DecidableEq, Repr

namespace ErrPacket

def accessDenied (username : String) : ErrPacket :=
  ⟨1045, "28000", "Access denied for user '" ++ username ++ "'"⟩

def fromError : Error → ErrPacket
  | .parse msg => ⟨1064, "42000", "You have an error in your SQL syntax: " ++ msg⟩
  | .execution msg => ⟨1105, "HY000", msg⟩
  | .unsupported msg =>
    ⟨1235, "42000", "This version of mysql-rust doesn't yet support '" ++ msg ++ "'"⟩
  | .auth msg => ⟨1045, "28000", msg⟩
  | .protocol msg => ⟨1047, "08S01", msg⟩
  | .io e => ⟨1105, "HY000", "I/O error: " ++ e⟩
  | .config msg => ⟨1105, "HY000", msg⟩

def payload (err : ErrPacket) : List UInt8 :=
  0xff :: leBytes 2 err.errorCode.toNat ++ [0x23] ++ utf8 err.sqlState ++ utf8 err.message

def toPacket (err : ErrPacket) (sequenceId : UInt8) : Result Packet :=
  fit "ERR" sequenceId err.payload

end ErrPacket

end MysqlRust.Protocol
