import MysqlRust.Protocol.Client

/-! # A client's view of a whole response

A response is one reply after another: an OK packet, a result set or an ERR packet. The flags
of a reply say whether another one follows.
-/
namespace MysqlRust.Protocol.Client
open Reader List

inductive Reply where
  | ok (statusFlags : UInt16)
  | rows (statusFlags : UInt16)
  | err
  deriving DecidableEq, Repr

def moreResultsExist (statusFlags : UInt16) : Bool := statusFlags &&& 0x0008 ≠ 0

def Reply.more : Reply → Bool
  | .ok statusFlags | .rows statusFlags => moreResultsExist statusFlags
  | .err => false

def readOk : Reader Error UInt16 := do
  let _header ← byte malformed
  let _affectedRows ← readLenencInt
  let _lastInsertId ← readLenencInt
  let statusFlags ← readNat 2
  let _warnings ← readNat 2
  pure (UInt16.ofNat statusFlags)

def skipRows (deprecateEof : Bool) : List (List UInt8) → Option (Reply × List (List UInt8))
  | [] => none
  | payload :: rest =>
    if payload.head? = some 0xff then some (.err, rest)
    else if isTerminator deprecateEof payload then do
      let statusFlags ← parseAll (readTerminator deprecateEof) payload
      pure (.rows statusFlags, rest)
    else skipRows deprecateEof rest

def readReply (deprecateEof : Bool) : List (List UInt8) → Option (Reply × List (List UInt8))
  | [] => none
  | first :: rest =>
    if first.head? = some 0xff then some (.err, rest)
    else if first.head? = some 0x00 then
      match readOk first 0 with
      | .ok (statusFlags, _) => some (.ok statusFlags, rest)
      | _ => none
    else do
      let count ← parseAll readLenencInt first
      if rest.length < count.toNat then none
      else do
        let rest ← skipEof deprecateEof (rest.drop count.toNat)
        skipRows deprecateEof rest

def readReplies (deprecateEof : Bool) :
    Nat → List (List UInt8) → Option (List Reply × List (List UInt8))
  | 0, _ => none
  | fuel + 1, payloads => do
    let (reply, rest) ← readReply deprecateEof payloads
    if reply.more then do
      let (replies, rest) ← readReplies deprecateEof fuel rest
      pure (reply :: replies, rest)
    else pure ([reply], rest)

def readResponse (deprecateEof : Bool) (payloads : List (List UInt8)) :
    Option (List Reply × List (List UInt8)) :=
  readReplies deprecateEof payloads.length payloads

section Sent
variable {format : RowFormat} (deprecateEof : Bool) (statusFlags : UInt16)

theorem readReply_ok (ok : OkPacket) (rest : List (List UInt8)) :
    readReply deprecateEof (ok.payload :: rest) = some (.ok ok.statusFlags, rest) := by
  have hread : Exact readOk (0x00 :: (writeLenencInt ok.affectedRows ++
      (writeLenencInt ok.lastInsertId ++ (leBytes 2 ok.statusFlags.toNat ++
        leBytes 2 ok.warnings.toNat)))) ok.statusFlags := by
    refine .tagged _ _ ((readLenencInt_exact _).bind ((readLenencInt_exact _).bind ?_))
    refine (readNat_exact 2 _ ok.statusFlags.toNat_lt).bind ?_
    refine (readNat_exact 2 _ ok.warnings.toNat_lt).bind_eq_pure ?_
    rw [UInt16.ofNat_toNat]
  have hpayload := hread.reads [] (utf8 ok.info)
  simp only [nil_append, append_assoc, length_nil, cons_append] at hpayload
  simp [readReply, OkPacket.payload, hpayload]

theorem readReply_err (err : ErrPacket) (rest : List (List UInt8)) :
    readReply deprecateEof (err.payload :: rest) = some (.err, rest) := by
  simp [readReply, ErrPacket.payload]

theorem head?_payload {row : List Cell} (h : (format.payload row).length ≤ maxPayload) :
    (format.payload row).head? ≠ some 0xfe ∧ (format.payload row).head? ≠ some 0xff := by
  cases format with
  | binary => simp [RowFormat.payload, binaryRow]
  | text =>
    cases row with
    | nil => simp [RowFormat.payload, textRow]
    | cons cell cells =>
      have hcell := (length_cell_le textCell mem_cons_self).trans h
      obtain ⟨first, rest, hfirst, hne⟩ := head?_textCell hcell
      simpa [RowFormat.payload, textRow, hfirst] using hne

theorem skipRows_append {rows : List (List Cell)}
    (hrows : ∀ row ∈ rows, (format.payload row).length ≤ maxPayload) (rest : List (List UInt8)) :
    skipRows deprecateEof
      (rows.map format.payload ++ terminatorPayload deprecateEof statusFlags :: rest) =
      some (.rows statusFlags, rest) := by
  induction rows with
  | nil =>
    have hflags := (readTerminator_exact deprecateEof statusFlags).parseAll
    have herr : (terminatorPayload deprecateEof statusFlags).head? ≠ some 0xff := by
      cases deprecateEof <;> simp [terminatorPayload, eofPayload, deprecateEofPayload]
    simp [skipRows, isTerminator_terminatorPayload, hflags, herr]
  | cons row rows ih =>
    obtain ⟨heof, herr⟩ := head?_payload (hrows row mem_cons_self)
    have hrest := ih fun r hr => hrows r (mem_cons_of_mem row hr)
    simp [skipRows, isTerminator, heof, herr, hrest]

theorem head?_count {n : Nat} (h : 0 < n) (hlt : n < 2 ^ 64) :
    (writeLenencInt (UInt64.ofNat n)).head? ≠ some 0xff ∧
      (writeLenencInt (UInt64.ofNat n)).head? ≠ some 0x00 := by
  have hn : (UInt64.ofNat n).toNat = n := UInt64.toNat_ofNat_of_lt' hlt
  obtain ⟨first, rest, hint, -, herr, -⟩ := writeLenencInt_eq_cons (UInt64.ofNat n)
  have hread := readLenencInt_exact (UInt64.ofNat n)
  rw [hint] at hread ⊢
  refine ⟨by simpa using herr, fun hzero => ?_⟩
  cases Option.some.inj hzero
  -- a zero byte alone is read as the number zero
  have hreads := hread.reads [] []
  rw [nil_append, append_nil] at hreads
  have hzero : (0 : UInt64) = UInt64.ofNat n := (Prod.mk.inj (Outcome.ok.inj hreads)).1
  rw [← hzero] at hn
  exact h.ne hn

theorem readReply_resultSet {resultSet : ResultSet} (hcolumns : resultSet.columns ≠ [])
    (hcount : resultSet.columns.length < 2 ^ 64)
    (hrows : ∀ row ∈ resultSet.rows, (format.payload row).length ≤ maxPayload)
    (rest : List (List UInt8)) :
    readReply deprecateEof (resultSet.payloads format deprecateEof statusFlags ++ rest) =
      some (.rows statusFlags, rest) := by
  obtain ⟨herr, hok⟩ := head?_count (List.length_pos_iff.mpr hcolumns) hcount
  have hcount : (UInt64.ofNat resultSet.columns.length).toNat = resultSet.columns.length :=
    UInt64.toNat_ofNat_of_lt' hcount
  have hfirst := (readLenencInt_exact (UInt64.ofNat resultSet.columns.length)).parseAll
  have hskip := skipRows_append deprecateEof statusFlags hrows rest
  rw [ResultSet.payloads, cons_append, readReply, if_neg herr, if_neg hok, hfirst]
  simp [hcount, skipEof_append, hskip]

end Sent

end MysqlRust.Protocol.Client
