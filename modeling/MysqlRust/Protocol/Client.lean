import MysqlRust.Protocol.ResultSet

/-! # A client's view of a result set

A decoder written from the protocol, not from the server: it reads a column count, as many
definitions, the mark after them in the classic framing, and rows until a terminator.
-/
namespace MysqlRust.Protocol.Client

open List

open List
open Reader

def malformed : Error := .protocol "malformed packet"

def payloads : UInt8 → List Packet → Option (List (List UInt8))
  | _, [] => some []
  | expected, packet :: packets =>
    if packet.sequenceId = expected then (packet.payload :: ·) <$> payloads (expected + 1) packets
    else none

def readNat (width : Nat) : Reader Error Nat := do
  let bytes ← slice width malformed
  pure (leValue bytes)

def readStr : Reader Error String := do
  let length ← readLenencInt
  let bytes ← slice length.toNat malformed
  match String.fromUTF8? ⟨bytes.toArray⟩ with
  | some s => pure s
  | none => fail malformed

def typeOfCode (code : UInt8) : Reader Error ColumnType :=
  if code = 0x08 then pure .longLong
  else if code = 0xfd then pure .varString
  else fail malformed

def readDefinition : Reader Error ColumnDefinition := do
  let _catalog ← readStr
  let _schema ← readStr
  let _table ← readStr
  let _orgTable ← readStr
  let name ← readStr
  let _orgName ← readStr
  let _fixedLength ← readLenencInt
  let _characterSet ← readNat 2
  let _columnLength ← readNat 4
  let code ← byte malformed
  let columnType ← typeOfCode code
  let _flags ← readNat 2
  let _decimals ← byte malformed
  let _filler ← slice 2 malformed
  pure ⟨name, columnType⟩

def cellOfText : ColumnType → String → Reader Error Cell
  | .varString, s => pure (.text s)
  | .longLong, s =>
    match parseI64 s with
    | some n => pure (.int n)
    | none => fail malformed

def readTextCell (column : ColumnDefinition) : Reader Error Cell := do
  let first ← peek malformed
  if first = 0xfb then do
    let _marker ← byte malformed
    pure .null
  else do
    let s ← readStr
    cellOfText column.columnType s

def readBinaryValue : ColumnType → Reader Error Cell
  | .varString => do
    let s ← readStr
    pure (.text s)
  | .longLong => do
    let n ← readNat 8
    pure (.int (Int64.ofUInt64 (UInt64.ofNat n)))

def readBinaryCell (bitmap : List UInt8) (column : ColumnDefinition × Nat) : Reader Error Cell :=
  if Bitmap.contains bitmap (column.2 + 2) then pure .null
  else readBinaryValue column.1.columnType

def readRow (columns : List ColumnDefinition) : RowFormat → Reader Error (List Cell)
  | .text => each readTextCell columns
  | .binary => do
    let header ← byte malformed
    if header = 0x00 then do
      let bitmap ← slice ((columns.length + 9) / 8) malformed
      each (readBinaryCell bitmap) columns.zipIdx
    else fail malformed

/-- A row may start with the byte of a terminator, but only when it is long. -/
def isTerminator (deprecateEof : Bool) (payload : List UInt8) : Bool :=
  payload.head? = some 0xfe && payload.length < (if deprecateEof then maxPayload else 9)

def readTerminator (deprecateEof : Bool) : Reader Error UInt16 := do
  let _header ← byte malformed
  if deprecateEof then do
    let _affectedRows ← readLenencInt
    let _lastInsertId ← readLenencInt
    let statusFlags ← readNat 2
    let _warnings ← readNat 2
    pure (UInt16.ofNat statusFlags)
  else do
    let _warnings ← readNat 2
    let statusFlags ← readNat 2
    pure (UInt16.ofNat statusFlags)

structure Received where
  columns : List ColumnDefinition
  rows : List (List Cell)
  statusFlags : UInt16
  deriving DecidableEq, Repr

def readRows (format : RowFormat) (deprecateEof : Bool) (columns : List ColumnDefinition) :
    List (List UInt8) → Option (List (List Cell) × UInt16 × List (List UInt8))
  | [] => none
  | payload :: rest =>
    if isTerminator deprecateEof payload then do
      let statusFlags ← parseAll (readTerminator deprecateEof) payload
      pure ([], statusFlags, rest)
    else do
      let row ← parseAll (readRow columns format) payload
      let (rows, statusFlags, rest) ← readRows format deprecateEof columns rest
      pure (row :: rows, statusFlags, rest)

def skipEof (deprecateEof : Bool) (payloads : List (List UInt8)) : Option (List (List UInt8)) :=
  if deprecateEof then some payloads
  else
    match payloads with
    | payload :: rest => if isTerminator false payload then some rest else none
    | [] => none

def readResultSet (format : RowFormat) (deprecateEof : Bool) :
    List (List UInt8) → Option (Received × List (List UInt8))
  | [] => none
  | first :: rest => do
    let count ← parseAll readLenencInt first
    let columns ← (rest.take count.toNat).mapM (parseAll readDefinition)
    if columns.length < count.toNat then none
    else
      let rest ← skipEof deprecateEof (rest.drop count.toNat)
      let (rows, statusFlags, rest) ← readRows format deprecateEof columns rest
      pure (⟨columns, rows, statusFlags⟩, rest)

def receive (format : RowFormat) (deprecateEof : Bool) (start : UInt8) (packets : List Packet) :
    Option Received := do
  let sent ← payloads start packets
  let (received, rest) ← readResultSet format deprecateEof sent
  if rest = [] then some received else none

section
variable {cell : Cell} {row : List Cell} {column : ColumnDefinition}
  {columns : List ColumnDefinition}
variable {s : String}

theorem payloads_numbered (start : UInt8) (sent : List (List UInt8)) :
    payloads start (numbered start sent) = some sent := by
  induction sent generalizing start with
  | nil => rfl
  | cons payload sent ih => simp [numbered, payloads, ih]

theorem readNat_exact (width n : Nat) (h : n < 256 ^ width) :
    Exact (readNat width) (leBytes width n) n := by
  have hslice := (Exact.slice malformed (leBytes width n)).bind_pure leValue
  rw [leValue_leBytes_of_lt h, leBytes_length] at hslice
  exact hslice

theorem readStr_exact (h : (utf8 s).length < 2 ^ 64) : Exact readStr (writeLenencStr s) s := by
  have hlength : (UInt64.ofNat (utf8 s).length).toNat = (utf8 s).length :=
    UInt64.toNat_ofNat_of_lt' h
  refine (readLenencInt_exact _).bind ?_
  rw [hlength]
  refine (Exact.slice malformed (utf8 s)).bind_eq_pure ?_
  rw [fromUTF8?_utf8]

theorem typeOfCode_code (columnType : ColumnType) :
    typeOfCode columnType.code = pure columnType := by
  cases columnType <;> rfl

theorem readDefinition_exact (h : (utf8 column.name).length < 2 ^ 64) :
    Exact readDefinition column.payload column := by
  have hempty : (utf8 "").length < 2 ^ 64 := by decide
  have hdef : (utf8 "def").length < 2 ^ 64 := by decide
  unfold ColumnDefinition.payload
  simp only [append_assoc]
  refine (readStr_exact hdef).bind ((readStr_exact hempty).bind ((readStr_exact hempty).bind ?_))
  refine (readStr_exact hempty).bind ((readStr_exact h).bind ((readStr_exact h).bind ?_))
  refine (readLenencInt_exact 0x0c).bind ?_
  refine (readNat_exact 2 45 (by decide)).bind ((readNat_exact 4 255 (by decide)).bind ?_)
  refine (Exact.byte _ _).bind ?_
  rw [typeOfCode_code, Reader.pure_bind]
  refine (readNat_exact 2 0 (by decide)).bind ((Exact.byte _ _).bind ?_)
  exact (Exact.slice malformed [0, 0]).bind_pure fun _ => column

theorem readText_exact (hlen : (writeLenencStr s).length ≤ maxPayload)
    (h : cellOfText column.columnType s = pure cell) :
    Exact (readTextCell column) (writeLenencStr s) cell := by
  have hutf8 := length_utf8_lt_writeLenencStr s
  have hmax : maxPayload = 0xFFFFFF := rfl
  have hread := (readStr_exact (s := s) (by omega)).bind_eq_pure h
  obtain ⟨first, rest, hfirst, hnull, -⟩ := writeLenencStr_eq_cons (s := s) (by omega)
  rw [hfirst] at hread ⊢
  refine .peeked _ _ ?_
  rwa [if_neg hnull]

theorem readTextCell_exact (h : cell.Matches column.columnType)
    (hlen : (textCell cell).length ≤ maxPayload) :
    Exact (readTextCell column) (textCell cell) cell := by
  cases cell with
  | int n =>
    refine readText_exact hlen ?_
    rw [show column.columnType = .longLong from h, cellOfText, parseI64_i64ToString]
  | text s =>
    refine readText_exact hlen ?_
    rw [show column.columnType = .varString from h, cellOfText]
  | null =>
    refine .peeked _ _ ?_
    exact (Exact.byte malformed nullMarker).bind_pure fun _ => Cell.null

theorem readBinaryValue_exact {columnType : ColumnType} (h : cell.Matches columnType)
    (hne : cell ≠ .null) (hlen : (binaryCell cell).length ≤ maxPayload) :
    Exact (readBinaryValue columnType) (binaryCell cell) cell := by
  cases cell with
  | int n =>
    rw [show columnType = .longLong from h]
    have hread := (readNat_exact 8 n.toUInt64.toNat n.toUInt64.toNat_lt).bind_pure fun k =>
      Cell.int (Int64.ofUInt64 (UInt64.ofNat k))
    rwa [UInt64.ofNat_toNat] at hread
  | text s =>
    have hutf8 := length_utf8_lt_writeLenencStr s
    have hmax : maxPayload = 0xFFFFFF := rfl
    have hlen : (writeLenencStr s).length ≤ maxPayload := hlen
    rw [show columnType = .varString from h]
    exact (readStr_exact (by omega)).bind_pure Cell.text
  | null => exact absurd rfl hne

theorem nullBitmap_eq_positions (cells : List Cell) :
    nullBitmap cells = Bitmap.positions (fun cell => decide (cell = .null)) 2 cells := by
  simp only [nullBitmap, Bitmap.positions, decide_eq_true_eq]

theorem contains_nullBitmap (cells : List Cell) (i : Nat) :
    Bitmap.contains (nullBitmap cells) (i + 2) = decide (cells[i]? = some .null) := by
  rw [nullBitmap_eq_positions, Bitmap.contains_positions]
  cases cells[i]? <;> simp

def RowMatches (columns : List ColumnDefinition) (row : List Cell) : Prop :=
  List.Forall₂ (fun column cell => cell.Matches column.columnType) columns row

theorem length_cell_le (encode : Cell → List UInt8) (h : cell ∈ row) :
    (encode cell).length ≤ (row.flatMap encode).length := by
  obtain ⟨before, after, rfl⟩ := append_of_mem h
  simp only [flatMap_append, flatMap_cons, length_append]
  omega

theorem readTextRow_exact (h : RowMatches columns row) (hlen : (textRow row).length ≤ maxPayload) :
    Exact (readRow columns .text) (textRow row) row := by
  obtain ⟨hlength, hcells⟩ := forall₂_iff_get.mp h
  refine .each (forall₂_iff_get.mpr ⟨hlength, fun i hcolumn hcell => ?_⟩)
  have hmem : row.get ⟨i, hcell⟩ ∈ row := get_mem row ⟨i, hcell⟩
  exact readTextCell_exact (hcells i hcolumn hcell)
    ((length_cell_le textCell hmem).trans hlen)

theorem readBinaryCell_exact {i : Nat} (hcell : row[i]? = some cell)
    (h : cell.Matches column.columnType) (hlen : (binaryCell cell).length ≤ maxPayload) :
    Exact (readBinaryCell (nullBitmap row) (column, i)) (binaryCell cell) cell := by
  unfold readBinaryCell
  rw [contains_nullBitmap, hcell]
  by_cases hnull : cell = .null
  · subst hnull
    exact .pure Cell.null
  · have hne : ¬ decide (some cell = some Cell.null) = true := by simpa using hnull
    rw [if_neg hne]
    exact readBinaryValue_exact h hnull hlen

theorem length_nullBitmap (row : List Cell) : (nullBitmap row).length = (row.length + 9) / 8 := by
  rw [nullBitmap_eq_positions, Bitmap.length_positions]

theorem readBinaryRow_exact (h : RowMatches columns row)
    (hlen : (binaryRow row).length ≤ maxPayload) :
    Exact (readRow columns .binary) (binaryRow row) row := by
  obtain ⟨hlength, hcells⟩ := forall₂_iff_get.mp h
  have hslice := Exact.slice malformed (nullBitmap row)
  rw [length_nullBitmap, ← hlength] at hslice
  refine .tagged _ _ (hslice.bind ?_)
  refine .each (forall₂_iff_get.mpr ⟨by simpa using hlength, fun i hcolumn hcell => ?_⟩)
  have hmem : row.get ⟨i, hcell⟩ ∈ row := get_mem row ⟨i, hcell⟩
  have hcell_le := length_cell_le binaryCell hmem
  have hrow : (row.flatMap binaryCell).length ≤ (binaryRow row).length := by
    simp only [binaryRow, cons_append, length_cons, length_append]
    omega
  have hget := readBinaryCell_exact (getElem?_eq_getElem hcell)
    (hcells i (by simpa using hcolumn) hcell) ((hcell_le.trans hrow).trans hlen)
  simpa using hget

theorem readRow_exact {format : RowFormat} (h : RowMatches columns row)
    (hlen : (format.payload row).length ≤ maxPayload) :
    Exact (readRow columns format) (format.payload row) row := by
  cases format with
  | text => exact readTextRow_exact h hlen
  | binary => exact readBinaryRow_exact h hlen

theorem readTerminator_exact (deprecateEof : Bool) (statusFlags : UInt16) :
    Exact (readTerminator deprecateEof) (terminatorPayload deprecateEof statusFlags)
      statusFlags := by
  have hflags := readNat_exact 2 statusFlags.toNat statusFlags.toNat_lt
  have hzero := readNat_exact 2 0 (by decide)
  cases deprecateEof with
  | false =>
    refine .tagged _ _ (hzero.bind ?_)
    refine hflags.bind_eq_pure ?_
    rw [UInt16.ofNat_toNat]
  | true =>
    refine .tagged _ _ ?_
    refine (readLenencInt_exact 0).bind ((readLenencInt_exact 0).bind (hflags.bind ?_))
    refine hzero.bind_eq_pure ?_
    rw [UInt16.ofNat_toNat]

variable {format : RowFormat} (deprecateEof : Bool) (statusFlags : UInt16)

theorem isTerminator_terminatorPayload :
    isTerminator deprecateEof (terminatorPayload deprecateEof statusFlags) = true := by
  cases deprecateEof <;> rfl

theorem head?_textCell {cell : Cell} (h : (textCell cell).length ≤ maxPayload) :
    ∃ first rest, textCell cell = first :: rest ∧ first ≠ 0xfe ∧ first ≠ 0xff := by
  unfold textCell at h ⊢
  split at h
  · rename_i s _
    have hutf8 := length_utf8_lt_writeLenencStr s
    have hmax : maxPayload = 0xFFFFFF := rfl
    obtain ⟨first, rest, hfirst, -, hne⟩ := writeLenencStr_eq_cons (s := s) (by omega)
    exact ⟨first, rest, hfirst, hne⟩
  · exact ⟨nullMarker, [], rfl, by decide, by decide⟩

/-- A row that fits a packet starts with another byte than a terminator. -/
theorem head?_row (hne : row ≠ []) (h : (format.payload row).length ≤ maxPayload) :
    (format.payload row).head? ≠ some 0xfe := by
  cases format with
  | binary => simp [RowFormat.payload, binaryRow]
  | text =>
    obtain ⟨cell, cells, rfl⟩ := exists_cons_of_ne_nil hne
    have hmem : cell ∈ cell :: cells := mem_cons_self
    have hcell := (length_cell_le textCell hmem).trans h
    obtain ⟨first, rest, hfirst, hne, -⟩ := head?_textCell hcell
    simpa [RowFormat.payload, textRow, hfirst] using hne

theorem isTerminator_row (hcolumns : columns ≠ []) (hrow : RowMatches columns row)
    (h : (format.payload row).length ≤ maxPayload) :
    isTerminator deprecateEof (format.payload row) = false := by
  have hne : row ≠ [] := by
    rintro rfl
    exact hcolumns (forall₂_nil_right_iff.mp hrow)
  simp [isTerminator, head?_row hne h]

theorem readRows_append {rows : List (List Cell)} (hcolumns : columns ≠ [])
    (hrows : ∀ row ∈ rows, RowMatches columns row ∧ (format.payload row).length ≤ maxPayload)
    (rest : List (List UInt8)) :
    readRows format deprecateEof columns
      (rows.map format.payload ++ terminatorPayload deprecateEof statusFlags :: rest) =
      some (rows, statusFlags, rest) := by
  induction rows with
  | nil =>
    have hflags := (readTerminator_exact deprecateEof statusFlags).parseAll
    simp [readRows, isTerminator_terminatorPayload, hflags]
  | cons row rows ih =>
    obtain ⟨hmatches, hlen⟩ := hrows row mem_cons_self
    have hrest := ih fun r hr => hrows r (mem_cons_of_mem row hr)
    have hread := (readRow_exact hmatches hlen).parseAll
    simp [readRows, isTerminator_row deprecateEof hcolumns hmatches hlen, hread, hrest]

theorem readDefinition_payload {column : ColumnDefinition}
    (h : column.payload.length ≤ maxPayload) :
    parseAll readDefinition column.payload = some column := by
  refine (readDefinition_exact ?_).parseAll
  have hutf8 := length_utf8_lt_writeLenencStr column.name
  have hname : (writeLenencStr column.name).length ≤ column.payload.length := by
    simp only [ColumnDefinition.payload, length_append]
    omega
  have hmax : maxPayload = 0xFFFFFF := rfl
  omega

theorem readDefinitions_payload
    (h : ∀ column ∈ columns, column.payload.length ≤ maxPayload) :
    (columns.map ColumnDefinition.payload).mapM (parseAll readDefinition) = some columns := by
  induction columns with
  | nil => rfl
  | cons column columns ih =>
    have hhead := readDefinition_payload (h column mem_cons_self)
    have hrest := ih fun c hc => h c (mem_cons_of_mem column hc)
    rw [map_cons, mapM_cons, hhead, hrest]
    rfl

theorem skipEof_append (rest : List (List UInt8)) :
    skipEof deprecateEof ((if deprecateEof then [] else [eofPayload statusFlags]) ++ rest) =
      some rest := by
  cases deprecateEof <;> rfl

theorem readResultSet_append {resultSet : ResultSet} (hcolumns : resultSet.columns ≠ [])
    (hcount : resultSet.columns.length < 2 ^ 64) (hfits : resultSet.Fits format)
    (hrows : ∀ row ∈ resultSet.rows, RowMatches resultSet.columns row)
    (rest : List (List UInt8)) :
    readResultSet format deprecateEof (resultSet.payloads format deprecateEof statusFlags ++ rest) =
      some (⟨resultSet.columns, resultSet.rows, statusFlags⟩, rest) := by
  have hcount : (UInt64.ofNat resultSet.columns.length).toNat = resultSet.columns.length :=
    UInt64.toNat_ofNat_of_lt' hcount
  have hfirst := (readLenencInt_exact (UInt64.ofNat resultSet.columns.length)).parseAll
  have hdefinitions := readDefinitions_payload hfits.1
  have hread := readRows_append deprecateEof statusFlags hcolumns
    (fun row hrow => ⟨hrows row hrow, hfits.2 row hrow⟩) rest
  rw [ResultSet.payloads, cons_append, readResultSet, hfirst]
  simp [hcount, hdefinitions, skipEof_append, hread]

/-- The client gets the result set back and tells its rows from its terminator. -/
theorem resultSet_received (resultSet : ResultSet) (format : RowFormat) (start : UInt8)
    (hcolumns : resultSet.columns ≠ []) (hcount : resultSet.columns.length < 2 ^ 64)
    (hrows : ∀ row ∈ resultSet.rows, RowMatches resultSet.columns row)
    (hdefinitions : ∀ column ∈ resultSet.columns, column.payload.length < maxPayload)
    (hpayloads : ∀ row ∈ resultSet.rows, (format.payload row).length < maxPayload) :
    ∃ packets next, format.toPackets resultSet deprecateEof statusFlags start =
        .ok (packets, next) ∧
      receive format deprecateEof start packets =
        some ⟨resultSet.columns, resultSet.rows, statusFlags⟩ ∧
      (∀ row ∈ resultSet.rows, isTerminator deprecateEof (format.payload row) = false) ∧
      ∃ last ∈ packets.getLast?, isTerminator deprecateEof last.payload = true := by
  have hfits : resultSet.Fits format :=
    ⟨fun column h => (hdefinitions column h).le, fun row h => (hpayloads row h).le⟩
  refine ⟨_, _, (format.toPackets_eq ..).trans (ResultSet.toPackets_of_fits hfits), ?_, ?_, ?_⟩
  · have hread := readResultSet_append deprecateEof statusFlags hcolumns hcount hfits hrows []
    rw [append_nil] at hread
    simp [receive, payloads_numbered, hread]
  · intro row hrow
    exact isTerminator_row deprecateEof hcolumns (hrows row hrow) (hfits.2 row hrow)
  · have hlast : (numbered start (resultSet.payloads format deprecateEof statusFlags)).getLast?.map
        Packet.payload = some (terminatorPayload deprecateEof statusFlags) := by
      rw [← getLast?_map, numbered_payloads]
      simp [ResultSet.payloads, getLast?_cons, getLast?_append]
    obtain ⟨last, hmem, hpayload⟩ := Option.map_eq_some_iff.mp hlast
    refine ⟨last, hmem, ?_⟩
    rw [hpayload]
    exact isTerminator_terminatorPayload deprecateEof statusFlags

theorem resultSet_received_two_columns : ∃ packets next, RowFormat.binary.toPackets
        ⟨[⟨"id", .longLong⟩, ⟨"name", .varString⟩], [[.int 7, .text "a"], [.null, .null]]⟩
        true 2 255 = .ok (packets, next) ∧
      receive .binary true 255 packets =
        some ⟨[⟨"id", .longLong⟩, ⟨"name", .varString⟩], [[.int 7, .text "a"], [.null, .null]], 2⟩ := by
  obtain ⟨packets, next, hsent, hreceived, -⟩ := resultSet_received true 2
    ⟨[⟨"id", .longLong⟩, ⟨"name", .varString⟩], [[.int 7, .text "a"], [.null, .null]]⟩ .binary 255
    (by decide) (by decide) (by simp [RowMatches, Cell.Matches]) (by decide) (by decide)
  exact ⟨packets, next, hsent, hreceived⟩

end

end MysqlRust.Protocol.Client
