import MysqlRust.Protocol.Client

/-! # Frames that announce another one

A frame of `maxPayload` bytes is continued by the next one. The encoders refuse only what is
longer, and send every payload in one frame.
-/
namespace MysqlRust.Protocol

open List Outcome

def lenencStrLen (s : String) : Nat := lenencIntLen (UInt64.ofNat (utf8 s).length) + (utf8 s).length

theorem length_writeLenencStr (s : String) : (writeLenencStr s).length = lenencStrLen s := by
  rw [writeLenencStr, writeLenencBytes, length_append, length_writeLenencInt, lenencStrLen]

def Cell.textLen : Cell → Nat
  | .null => 1
  | .int n => lenencStrLen (i64ToString n)
  | .text s => lenencStrLen s

def Cell.binaryLen : Cell → Nat
  | .null => 0
  | .int _ => 8
  | .text s => lenencStrLen s

def cellsLen (len : Cell → Nat) : List Cell → Nat
  | [] => 0
  | cell :: cells => len cell + cellsLen len cells

def RowFormat.rowLen : RowFormat → List Cell → Nat
  | .text, cells => cellsLen Cell.textLen cells
  | .binary, cells => 1 + (cells.length + 9) / 8 + cellsLen Cell.binaryLen cells

theorem length_flatMap_cells {bytes : Cell → List UInt8} {len : Cell → Nat}
    (h : ∀ cell, (bytes cell).length = len cell) (cells : List Cell) :
    (cells.flatMap bytes).length = cellsLen len cells := by
  induction cells with
  | nil => rfl
  | cons cell cells ih => rw [flatMap_cons, length_append, h, ih, cellsLen]

theorem length_textCell (cell : Cell) : (textCell cell).length = cell.textLen := by
  cases cell with
  | int n => exact length_writeLenencStr (i64ToString n)
  | text s => exact length_writeLenencStr s
  | null => rfl

theorem length_binaryCell (cell : Cell) : (binaryCell cell).length = cell.binaryLen := by
  cases cell with
  | int n => exact leBytes_length 8 _
  | text s => exact length_writeLenencStr s
  | null => rfl

theorem RowFormat.length_payload (format : RowFormat) (cells : List Cell) :
    (format.payload cells).length = format.rowLen cells := by
  cases format with
  | text => exact length_flatMap_cells length_textCell cells
  | binary =>
    have hcells := length_flatMap_cells length_binaryCell cells
    simp only [payload, binaryRow, rowLen, cons_append, length_cons, length_append,
      Client.length_nullBitmap, hcells]
    omega

theorem ColumnDefinition.length_payload (column : ColumnDefinition) :
    column.payload.length = 20 + 2 * lenencStrLen column.name := by
  have hdef : lenencStrLen "def" = 4 := by decide
  have hempty : lenencStrLen "" = 1 := by decide
  simp only [payload, length_append, length_writeLenencStr, hdef, hempty, leBytes_length,
    length_cons, length_nil]
  omega

inductive Outgoing where
  | resultSet (format : RowFormat) (results : ResultSet) (deprecateEof : Bool)
      (statusFlags : UInt16)
  | columnDefinition (column : ColumnDefinition)
  | err (error : ErrPacket)
  | ok (reply : OkPacket)

namespace Outgoing

def packets : Outgoing → UInt8 → Result (List Packet)
  | .resultSet format results deprecateEof statusFlags, start => do
    let sent ← format.toPackets results deprecateEof statusFlags start
    pure sent.1
  | .columnDefinition column, start => do
    let packet ← column.toPacket start
    pure [packet]
  | .err error, start => do
    let packet ← error.toPacket start
    pure [packet]
  | .ok reply, start => do
    let packet ← reply.toPacket start
    pure [packet]

/-- A row or a message has the size of a frame that announces another one. -/
def Full : Outgoing → Prop
  | .resultSet format results _ _ => ∃ row ∈ results.rows, format.rowLen row = maxPayload
  | .columnDefinition _ => False
  | .err error => 4 + (utf8 error.sqlState).length + (utf8 error.message).length = maxPayload
  | .ok reply => 5 + lenencIntLen reply.affectedRows + lenencIntLen reply.lastInsertId +
      (utf8 reply.info).length = maxPayload

end Outgoing

section Accepted
variable {start : UInt8} {sent : List Packet}

theorem forall_numbered {payloads : List (List UInt8)} {P : List UInt8 → Prop} :
    (∀ packet ∈ numbered start payloads, P packet.payload) ↔ ∀ payload ∈ payloads, P payload := by
  have hmap := forall_mem_map (f := Packet.payload) (l := numbered start payloads) (P := P)
  rw [numbered_payloads] at hmap
  exact hmap.symm

theorem fit_lt_iff {what : String} {payload : List UInt8} {len : Nat} (hlen : payload.length = len)
    (h : (do let packet ← fit what start payload; pure [packet] : Result (List Packet)) =
      .ok sent) :
    (∀ packet ∈ sent, packet.payload.length < maxPayload) ↔ ¬ len = maxPayload := by
  obtain ⟨packet, hfit, hsent⟩ := bind_eq_ok.mp h
  obtain ⟨rfl, hle⟩ := fit_eq_ok hfit
  cases hsent
  rw [forall_mem_singleton, hlen]
  rw [hlen] at hle
  exact ⟨Nat.ne_of_lt, fun hne => lt_of_le_of_ne hle hne⟩

theorem ColumnDefinition.length_payload_ne (column : ColumnDefinition) :
    column.payload.length ≠ maxPayload := by
  rw [length_payload, maxPayload]
  omega

theorem resultSet_lt_iff {format : RowFormat} {resultSet : ResultSet} {deprecateEof : Bool}
    {statusFlags : UInt16} (h : resultSet.Fits format) :
    (∀ payload ∈ resultSet.payloads format deprecateEof statusFlags,
      payload.length < maxPayload) ↔ ∀ row ∈ resultSet.rows, format.rowLen row ≠ maxPayload := by
  have hbelow : ∀ n, n < maxPayload ↔ n ≤ maxPayload - 1 := fun n => by
    unfold maxPayload
    omega
  have hcolumns : ∀ column ∈ resultSet.columns, column.payload.length ≤ maxPayload - 1 :=
    fun column hcolumn => (hbelow _).mp (lt_of_le_of_ne (h.1 column hcolumn) column.length_payload_ne)
  simp only [hbelow]
  rw [ResultSet.forall_payloads_le (by decide), and_iff_right hcolumns]
  refine forall₂_congr fun row hrow => ?_
  have hle := h.2 row hrow
  rw [format.length_payload] at hle ⊢
  rw [← hbelow]
  exact ⟨Nat.ne_of_lt, fun hne => lt_of_le_of_ne hle hne⟩

/-- Every frame that is sent is complete in itself exactly when nothing has that size. -/
theorem Outgoing.complete_iff (out : Outgoing) (start : UInt8) (h : out.packets start = .ok sent) :
    (∀ packet ∈ sent, packet.payload.length < maxPayload) ↔ ¬ out.Full := by
  cases out with
  | resultSet format results deprecateEof statusFlags =>
    obtain ⟨⟨packets, next⟩, hpackets, hsent⟩ := bind_eq_ok.mp h
    cases hsent
    rw [format.toPackets_eq] at hpackets
    have hfits := ResultSet.fits_of_toPackets hpackets
    rw [ResultSet.toPackets_of_fits hfits] at hpackets
    cases hpackets
    rw [forall_numbered (P := fun payload => payload.length < maxPayload), resultSet_lt_iff hfits]
    simp [Full]
  | columnDefinition column =>
    rw [fit_lt_iff rfl h]
    exact iff_of_true column.length_payload_ne id
  | err error =>
    refine fit_lt_iff ?_ h
    simp only [ErrPacket.payload, cons_append, length_cons, length_append,
      leBytes_length, length_nil]
    omega
  | ok reply =>
    refine fit_lt_iff ?_ h
    simp only [OkPacket.payload, cons_append, length_cons, length_append,
      leBytes_length, length_writeLenencInt]
    omega

def smallResultSet : ResultSet :=
  ⟨[⟨"n", .longLong⟩, ⟨"s", .varString⟩], [[.int 10, .text "a"], [.null, .text ""]]⟩

/-- A result set of two columns and two rows in seven frames. -/
theorem complete_iff_smallResultSet : ∃ sent,
    (Outgoing.resultSet .text smallResultSet false 2).packets 1 = .ok sent ∧ sent.length = 7 ∧
      ∀ packet ∈ sent, packet.payload.length < maxPayload := by
  have hseven : List.length <$> (Outgoing.resultSet .text smallResultSet false 2).packets 1 =
      .ok 7 := by decide +kernel
  obtain ⟨sent, hsent, hlength⟩ := map_eq_ok.mp hseven
  refine ⟨sent, hsent, hlength, (Outgoing.complete_iff _ 1 hsent).mpr ?_⟩
  rintro ⟨row, hrow, hlen⟩
  have hshort : ∀ row ∈ smallResultSet.rows, RowFormat.text.rowLen row ≠ maxPayload := by decide
  exact hshort row hrow hlen

def wideText : String := String.ofList (List.replicate 8388602 'a')

theorem lenencStrLen_wideText : lenencStrLen wideText = 8388606 := by
  have hlength : (utf8 wideText).length = 8388602 := utf8_length_replicate 8388602 (by decide)
  rw [lenencStrLen, hlength]
  decide

def fullResultSet : ResultSet :=
  ⟨[⟨"s", .varString⟩, ⟨"s", .varString⟩, ⟨"n", .longLong⟩],
    [[.text wideText, .text wideText, .int 10]]⟩

/-- It is sent with a row whose frame announces another one. -/
theorem fullResultSet_sent : ∃ sent packet,
    (Outgoing.resultSet .text fullResultSet false 2).packets 1 = .ok sent ∧ packet ∈ sent ∧
      packet.payload.length = 0xFFFFFF := by
  let row : List Cell := [.text wideText, .text wideText, .int 10]
  have hrow : (RowFormat.text.payload row).length = 0xFFFFFF := by
    have hten : lenencStrLen (i64ToString 10) = 3 := by decide +kernel
    rw [RowFormat.length_payload, RowFormat.rowLen, cellsLen, cellsLen, cellsLen, cellsLen,
      Cell.textLen, Cell.textLen, lenencStrLen_wideText, hten]
  have hfits : fullResultSet.Fits .text := by
    constructor
    · have hname : ∀ column ∈ fullResultSet.columns, lenencStrLen column.name = 2 := by decide
      intro column hcolumn
      rw [column.length_payload, hname column hcolumn]
      decide
    · exact forall_mem_singleton.mpr hrow.le
  have hsent : (Outgoing.resultSet .text fullResultSet false 2).packets 1 =
      .ok (numbered 1 (fullResultSet.payloads .text false 2)) := by
    rw [Outgoing.packets, RowFormat.toPackets_eq, ResultSet.toPackets_of_fits hfits]
    rfl
  have hmem : RowFormat.text.payload row ∈ fullResultSet.payloads .text false 2 := by
    simp [row, fullResultSet, ResultSet.payloads]
  rw [← numbered_payloads 1 (fullResultSet.payloads .text false 2)] at hmem
  obtain ⟨packet, hpacket, hpayload⟩ := mem_map.mp hmem
  refine ⟨_, packet, hsent, hpacket, ?_⟩
  rw [hpayload, hrow]

end Accepted

end MysqlRust.Protocol
