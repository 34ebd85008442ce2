import MysqlRust.Foundation.Bitmap
import MysqlRust.Protocol.Response

/-! # Result sets

Column count, column definitions, rows and a terminator, in the text or the binary protocol.
The classic framing also marks the end of the definitions; with `CLIENT_DEPRECATE_EOF` only
the end of the rows is marked.
-/
namespace MysqlRust.Protocol

open Outcome List

section Packets
variable {α : Type}

def numbered : UInt8 → List (List UInt8) → List Packet
  | _, [] => []
  | sequenceId, payload :: payloads => ⟨sequenceId, payload⟩ :: numbered (sequenceId + 1) payloads

def advance (sequenceId : UInt8) (count : Nat) : UInt8 := sequenceId + UInt8.ofNat count

theorem advance_zero (sequenceId : UInt8) : advance sequenceId 0 = sequenceId :=
  UInt8.add_zero sequenceId

theorem advance_succ (sequenceId : UInt8) (count : Nat) :
    advance (sequenceId + 1) count = advance sequenceId (count + 1) := by
  unfold advance
  rw [UInt8.ofNat_add, UInt8.add_assoc, UInt8.add_comm 1]
  rfl

theorem advance_add_one (sequenceId : UInt8) (count : Nat) :
    advance sequenceId count + 1 = advance sequenceId (count + 1) := by
  unfold advance
  rw [UInt8.ofNat_add, UInt8.add_assoc]
  rfl

theorem advance_advance (sequenceId : UInt8) (m n : Nat) :
    advance (advance sequenceId m) n = advance sequenceId (m + n) := by
  unfold advance
  rw [UInt8.ofNat_add, UInt8.add_assoc]

theorem numbered_append (sequenceId : UInt8) (ps qs : List (List UInt8)) :
    numbered sequenceId (ps ++ qs) =
      numbered sequenceId ps ++ numbered (advance sequenceId ps.length) qs := by
  induction ps generalizing sequenceId with
  | nil => simp [numbered, advance_zero]
  | cons p ps ih => simp [numbered, ih, advance_succ]

theorem numbered_payloads (sequenceId : UInt8) (payloads : List (List UInt8)) :
    (numbered sequenceId payloads).map Packet.payload = payloads := by
  induction payloads generalizing sequenceId with
  | nil => rfl
  | cons p ps ih => simp [numbered, ih]

def emitEach {α : Type} (packetOf : α → UInt8 → Result Packet) :
    List α → UInt8 → Result (List Packet × UInt8)
  | [], sequenceId => .ok ([], sequenceId)
  | a :: as, sequenceId => do
    let packet ← packetOf a sequenceId
    let (packets, sequenceId) ← emitEach packetOf as (sequenceId + 1)
    pure (packet :: packets, sequenceId)

def encodeEach {α : Type} (packetOf : α → UInt8 → Result Packet) :
    List α → List UInt8 → UInt8 → Result (List UInt8 × UInt8)
  | [], out, sequenceId => .ok (out, sequenceId)
  | a :: as, out, sequenceId => do
    let packet ← packetOf a sequenceId
    encodeEach packetOf as (packet.encodeInto out) (sequenceId + 1)

def append (out : List UInt8) (sent : List Packet × UInt8) : List UInt8 × UInt8 :=
  (out ++ sent.1.flatMap Packet.encode, sent.2)

theorem encodeEach_eq (packetOf : α → UInt8 → Result Packet) (as : List α) (out : List UInt8)
    (sequenceId : UInt8) :
    encodeEach packetOf as out sequenceId = append out <$> emitEach packetOf as sequenceId := by
  induction as generalizing out sequenceId with
  | nil => simp [encodeEach, emitEach, append]
  | cons a as ih =>
    rw [encodeEach, emitEach, map_bind]
    congr 1
    funext packet
    rw [ih, map_bind, ← bind_pure_comp]
    congr 1
    funext sent
    simp [append, Packet.encodeInto_eq]

theorem emitEach_fit_eq_ok {what : String} {payload : α → List UInt8} {as : List α}
    {sequenceId : UInt8} {sent : List Packet × UInt8} :
    emitEach (fun a seq => fit what seq (payload a)) as sequenceId = .ok sent ↔
      (∀ a ∈ as, (payload a).length ≤ maxPayload) ∧
        sent = (numbered sequenceId (as.map payload), advance sequenceId as.length) := by
  induction as generalizing sequenceId sent with
  | nil => simp [emitEach, numbered, advance_zero, eq_comm]
  | cons a as ih =>
    rw [emitEach, bind_eq_ok, forall_mem_cons]
    constructor
    · rintro ⟨packet, hpacket, hrest⟩
      obtain ⟨rfl, hfit⟩ := fit_eq_ok hpacket
      obtain ⟨rest, hrest, hsent⟩ := bind_eq_ok.mp hrest
      obtain ⟨hfits, rfl⟩ := ih.mp hrest
      cases hsent
      exact ⟨⟨hfit, hfits⟩, by simp [numbered, advance_succ]⟩
    · rintro ⟨⟨hfit, hfits⟩, rfl⟩
      refine ⟨_, fit_of_le hfit, bind_eq_ok.mpr ⟨_, ih.mpr ⟨hfits, rfl⟩, ?_⟩⟩
      simp [numbered, advance_succ]

theorem emitEach_ne_panic {packetOf : α → UInt8 → Result Packet}
    (h : ∀ a seq, packetOf a seq ≠ .panic) (as : List α) (sequenceId : UInt8) :
    emitEach packetOf as sequenceId ≠ .panic := by
  induction as generalizing sequenceId with
  | nil => simp [emitEach]
  | cons a as ih =>
    refine bind_ne_panic (h a sequenceId) fun packet _ => ?_
    exact bind_ne_panic (ih (sequenceId + 1)) fun sent _ => by simp

end Packets

inductive ColumnType where
  | longLong
  | varString
  deriving DecidableEq, Repr

def ColumnType.code : ColumnType → UInt8
  | .longLong => 0x08
  | .varString => 0xfd

inductive Cell where
  | int (n : Int64)
  | text (s : String)
  | null
  deriving DecidableEq, Repr

def Cell.Matches : Cell → ColumnType → Prop
  | .int _, columnType => columnType = .longLong
  | .text _, columnType => columnType = .varString
  | .null, _ => True

instance (cell : Cell) (columnType : ColumnType) : Decidable (cell.Matches columnType) := by
  unfold Cell.Matches
  split <;> infer_instance

def Cell.toText : Cell → Option String
  | .int n => some (i64ToString n)
  | .text s => some s
  | .null => none

structure ColumnDefinition where
  name : String
  columnType : ColumnType
  deriving DecidableEq, Repr

namespace ColumnDefinition

def payload (column : ColumnDefinition) : List UInt8 :=
  writeLenencStr "def" ++ writeLenencStr "" ++ writeLenencStr "" ++ writeLenencStr "" ++
    writeLenencStr column.name ++ writeLenencStr column.name ++ [0x0c] ++ leBytes 2 45 ++
    leBytes 4 255 ++ [column.columnType.code] ++ leBytes 2 0 ++ [0] ++ [0, 0]

def toPacket (column : ColumnDefinition) (sequenceId : UInt8) : Result Packet :=
  fit "column definition" sequenceId column.payload

end ColumnDefinition

def nullMarker : UInt8 := 0xfb

def textCell (cell : Cell) : List UInt8 :=
  match cell.toText with
  | some v => writeLenencStr v
  | none => [nullMarker]

def textRow (cells : List Cell) : List UInt8 := cells.flatMap textCell

/-- Bits 0 and 1 are reserved: column `i` has bit `i + 2`. -/
def nullBitmap (cells : List Cell) : List UInt8 :=
  cells.zipIdx.foldl
    (fun bitmap (cell, i) => if cell = .null then Bitmap.insert bitmap (i + 2) else bitmap)
    (Bitmap.empty ((cells.length + 2 + 7) / 8))

def binaryCell : Cell → List UInt8
  | .null => []
  | .int n => leBytes 8 n.toUInt64.toNat
  | .text s => writeLenencStr s

def binaryRow (cells : List Cell) : List UInt8 :=
  0x00 :: nullBitmap cells ++ cells.flatMap binaryCell

inductive RowFormat where
  | text
  | binary
  deriving DecidableEq, Repr

def RowFormat.payload : RowFormat → List Cell → List UInt8
  | .text => textRow
  | .binary => binaryRow

def encodeTextRow (cells : List Cell) (sequenceId : UInt8) : Result Packet :=
  fit "row" sequenceId (textRow cells)

def encodeBinaryRow (cells : List Cell) (sequenceId : UInt8) : Result Packet :=
  fit "binary row" sequenceId (binaryRow cells)

def RowFormat.encodeRow : RowFormat → List Cell → UInt8 → Result Packet
  | .text => encodeTextRow
  | .binary => encodeBinaryRow

theorem RowFormat.encodeRow_eq (format : RowFormat) :
    ∃ what, format.encodeRow = fun cells seq => fit what seq (format.payload cells) := by
  cases format with
  | text => exact ⟨"row", rfl⟩
  | binary => exact ⟨"binary row", rfl⟩

def eofPayload (statusFlags : UInt16) : List UInt8 :=
  0xfe :: leBytes 2 0 ++ leBytes 2 statusFlags.toNat

def eofPacket (statusFlags : UInt16) (sequenceId : UInt8) : Packet :=
  ⟨sequenceId, eofPayload statusFlags⟩

def deprecateEofPayload (statusFlags : UInt16) : List UInt8 :=
  0xfe :: writeLenencInt 0 ++ writeLenencInt 0 ++ leBytes 2 statusFlags.toNat ++ leBytes 2 0

def deprecateEofTerminator (statusFlags : UInt16) (sequenceId : UInt8) : Packet :=
  ⟨sequenceId, deprecateEofPayload statusFlags⟩

def terminatorPayload (deprecateEof : Bool) (statusFlags : UInt16) : List UInt8 :=
  if deprecateEof then deprecateEofPayload statusFlags else eofPayload statusFlags

structure ResultSet where
  columns : List ColumnDefinition
  rows : List (List Cell)
  deriving DecidableEq, Repr

namespace ResultSet

def toPackets (resultSet : ResultSet) (deprecateEof : Bool) (statusFlags : UInt16)
    (start : UInt8) (encodeRow : List Cell → UInt8 → Result Packet) :
    Result (List Packet × UInt8) := do
  let count : Packet := ⟨start, writeLenencInt (UInt64.ofNat resultSet.columns.length)⟩
  let (definitions, seq) ← emitEach ColumnDefinition.toPacket resultSet.columns (start + 1)
  let (eof, seq) := if deprecateEof then ([], seq) else ([eofPacket statusFlags seq], seq + 1)
  let (rows, seq) ← emitEach encodeRow resultSet.rows seq
  let terminator := if deprecateEof then deprecateEofTerminator statusFlags seq
    else eofPacket statusFlags seq
  pure (count :: definitions ++ eof ++ rows ++ [terminator], seq + 1)

def encodeInto (resultSet : ResultSet) (out : List UInt8) (deprecateEof : Bool)
    (statusFlags : UInt16) (start : UInt8) (encodeRow : List Cell → UInt8 → Result Packet) :
    Result (List UInt8 × UInt8) := do
  let count : Packet := ⟨start, writeLenencInt (UInt64.ofNat resultSet.columns.length)⟩
  let out := count.encodeInto out
  let (out, seq) ← encodeEach ColumnDefinition.toPacket resultSet.columns out (start + 1)
  let (out, seq) := if deprecateEof then (out, seq)
    else ((eofPacket statusFlags seq).encodeInto out, seq + 1)
  let (out, seq) ← encodeEach encodeRow resultSet.rows out seq
  let out := if deprecateEof then (deprecateEofTerminator statusFlags seq).encodeInto out
    else (eofPacket statusFlags seq).encodeInto out
  pure (out, seq + 1)

def toTextPackets (resultSet : ResultSet) (deprecateEof : Bool) (statusFlags : UInt16)
    (start : UInt8) : Result (List Packet × UInt8) :=
  resultSet.toPackets deprecateEof statusFlags start encodeTextRow

def toBinaryPackets (resultSet : ResultSet) (deprecateEof : Bool) (statusFlags : UInt16)
    (start : UInt8) : Result (List Packet × UInt8) :=
  resultSet.toPackets deprecateEof statusFlags start encodeBinaryRow

def encodeTextInto (resultSet : ResultSet) (out : List UInt8) (deprecateEof : Bool)
    (statusFlags : UInt16) (start : UInt8) : Result (List UInt8 × UInt8) :=
  resultSet.encodeInto out deprecateEof statusFlags start encodeTextRow

def encodeBinaryInto (resultSet : ResultSet) (out : List UInt8) (deprecateEof : Bool)
    (statusFlags : UInt16) (start : UInt8) : Result (List UInt8 × UInt8) :=
  resultSet.encodeInto out deprecateEof statusFlags start encodeBinaryRow

def payloads (resultSet : ResultSet) (format : RowFormat) (deprecateEof : Bool)
    (statusFlags : UInt16) : List (List UInt8) :=
  writeLenencInt (UInt64.ofNat resultSet.columns.length) ::
    (resultSet.columns.map ColumnDefinition.payload ++
      ((if deprecateEof then [] else [eofPayload statusFlags]) ++
        (resultSet.rows.map format.payload ++ [terminatorPayload deprecateEof statusFlags])))

/-- Whether the packets of a result fit is decided by its columns and its rows. -/
theorem forall_payloads_le {resultSet : ResultSet} {format : RowFormat} {deprecateEof : Bool}
    {statusFlags : UInt16} {bound : Nat} (hbound : 9 ≤ bound) :
    (∀ payload ∈ resultSet.payloads format deprecateEof statusFlags, payload.length ≤ bound) ↔
      (∀ column ∈ resultSet.columns, column.payload.length ≤ bound) ∧
        ∀ row ∈ resultSet.rows, (format.payload row).length ≤ bound := by
  have hcount : (writeLenencInt (UInt64.ofNat resultSet.columns.length)).length ≤ bound :=
    (length_writeLenencInt_le _).trans hbound
  have hmark : (eofPayload statusFlags).length ≤ bound := by
    simp only [eofPayload, length_append, length_cons, leBytes_length]
    omega
  have heof : ∀ payload ∈ (if deprecateEof then [] else [eofPayload statusFlags]),
      payload.length ≤ bound := by
    cases deprecateEof with
    | false => exact List.forall_mem_singleton.mpr hmark
    | true => exact forall_mem_nil _
  have hterminator : (terminatorPayload deprecateEof statusFlags).length ≤ bound := by
    cases deprecateEof with
    | false => exact hmark
    | true =>
      have hzero : (writeLenencInt 0).length = 1 := by decide
      simp only [terminatorPayload, deprecateEofPayload, if_true, length_cons,
        length_append, leBytes_length, hzero]
      omega
  rw [payloads, forall_mem_cons, forall_mem_append, forall_mem_append,
    forall_mem_append, forall_mem_singleton, forall_mem_map, forall_mem_map]
  simp only [hcount, hterminator, true_and, and_true]
  exact and_congr_right fun _ => and_iff_right heof

def Fits (resultSet : ResultSet) (format : RowFormat) : Prop :=
  (∀ column ∈ resultSet.columns, column.payload.length ≤ maxPayload) ∧
    ∀ row ∈ resultSet.rows, (format.payload row).length ≤ maxPayload

theorem encodeInto_eq (resultSet : ResultSet) (out : List UInt8) (deprecateEof : Bool)
    (statusFlags : UInt16) (start : UInt8) (encodeRow : List Cell → UInt8 → Result Packet) :
    resultSet.encodeInto out deprecateEof statusFlags start encodeRow =
      append out <$> resultSet.toPackets deprecateEof statusFlags start encodeRow := by
  cases deprecateEof <;>
    simp [encodeInto, toPackets, encodeEach_eq, append, Packet.encodeInto_eq, ← bind_pure_comp]

section Spec
variable {resultSet : ResultSet} {format : RowFormat} {deprecateEof : Bool} {statusFlags : UInt16}
  {start : UInt8}

theorem emitColumns_of_fits (h : resultSet.Fits format) :
    emitEach ColumnDefinition.toPacket resultSet.columns start =
      .ok (numbered start (resultSet.columns.map ColumnDefinition.payload),
        advance start resultSet.columns.length) :=
  emitEach_fit_eq_ok.mpr ⟨h.1, rfl⟩

theorem emitRows_of_fits (h : resultSet.Fits format) :
    emitEach format.encodeRow resultSet.rows start =
      .ok (numbered start (resultSet.rows.map format.payload),
        advance start resultSet.rows.length) := by
  obtain ⟨what, hwhat⟩ := format.encodeRow_eq
  rw [hwhat]
  exact emitEach_fit_eq_ok.mpr ⟨h.2, rfl⟩

theorem toPackets_of_fits (h : resultSet.Fits format) :
    resultSet.toPackets deprecateEof statusFlags start format.encodeRow =
      .ok (numbered start (resultSet.payloads format deprecateEof statusFlags),
        advance start (resultSet.payloads format deprecateEof statusFlags).length) := by
  rw [toPackets, emitColumns_of_fits h, ok_bind]
  cases deprecateEof <;>
    simp [emitRows_of_fits h, payloads, terminatorPayload, numbered, numbered_append,
      advance_succ, advance_advance, advance_add_one, eofPacket, deprecateEofTerminator,
      Nat.add_comm, Nat.add_left_comm]

theorem fits_of_toPackets {sent : List Packet × UInt8}
    (h : resultSet.toPackets deprecateEof statusFlags start format.encodeRow = .ok sent) :
    resultSet.Fits format := by
  obtain ⟨definitions, hdefinitions, hrest⟩ := bind_eq_ok.mp h
  obtain ⟨rows, hrows, -⟩ := bind_eq_ok.mp hrest
  obtain ⟨what, hwhat⟩ := format.encodeRow_eq
  rw [hwhat] at hrows
  exact ⟨(emitEach_fit_eq_ok.mp hdefinitions).1, (emitEach_fit_eq_ok.mp hrows).1⟩

end Spec

end ResultSet

def RowFormat.toPackets : RowFormat → ResultSet → Bool → UInt16 → UInt8 →
    Result (List Packet × UInt8)
  | .text => ResultSet.toTextPackets
  | .binary => ResultSet.toBinaryPackets

def RowFormat.encodeInto : RowFormat → ResultSet → List UInt8 → Bool → UInt16 → UInt8 →
    Result (List UInt8 × UInt8)
  | .text => ResultSet.encodeTextInto
  | .binary => ResultSet.encodeBinaryInto

theorem RowFormat.toPackets_eq (format : RowFormat) (resultSet : ResultSet) (deprecateEof : Bool)
    (statusFlags : UInt16) (start : UInt8) :
    format.toPackets resultSet deprecateEof statusFlags start =
      resultSet.toPackets deprecateEof statusFlags start format.encodeRow := by
  cases format <;> rfl

theorem RowFormat.encodeInto_eq (format : RowFormat) (resultSet : ResultSet) (out : List UInt8)
    (deprecateEof : Bool) (statusFlags : UInt16) (start : UInt8) :
    format.encodeInto resultSet out deprecateEof statusFlags start =
      append out <$> resultSet.toPackets deprecateEof statusFlags start format.encodeRow := by
  cases format <;> exact ResultSet.encodeInto_eq ..

/-- The buffer gets the bytes of the packets, and nothing else happens to it. -/
theorem RowFormat.encodeInto_eq_ok_iff (format : RowFormat) (resultSet : ResultSet)
    (out written : List UInt8) (deprecateEof : Bool) (statusFlags : UInt16) (start next : UInt8) :
    format.encodeInto resultSet out deprecateEof statusFlags start = .ok (written, next) ↔
      ∃ packets, format.toPackets resultSet deprecateEof statusFlags start = .ok (packets, next) ∧
        written = out ++ packets.flatMap Packet.encode := by
  rw [encodeInto_eq, ← toPackets_eq, map_eq_ok]
  constructor
  · rintro ⟨⟨packets, next⟩, hpackets, happend⟩
    cases happend
    exact ⟨packets, hpackets, rfl⟩
  · rintro ⟨packets, hpackets, rfl⟩
    exact ⟨(packets, next), hpackets, rfl⟩

-- one column `n` of two rows, 10 and `NULL`, behind a byte already in the buffer
example : RowFormat.text.encodeInto ⟨[⟨"n", .longLong⟩], [[.int 10], [.null]]⟩ [7] true 2 1 = .ok
    ([7, 1, 0, 0, 1, 1,
      24, 0, 0, 2, 3, 100, 101, 102, 0, 0, 0, 1, 110, 1, 110, 12, 45, 0, 255, 0, 0, 0, 8,
      0, 0, 0, 0, 0,
      3, 0, 0, 3, 2, 49, 48,
      1, 0, 0, 4, 251,
      7, 0, 0, 5, 254, 0, 0, 2, 0, 0, 0], 6) := by decide +kernel

end MysqlRust.Protocol
