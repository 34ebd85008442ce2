import MysqlRust.Foundation.Crc
import MysqlRust.Storage.LogCodec

/-! # Record framing

On disk a record is its length, a checksum over length and payload, and the payload. Positions and
file lengths are natural numbers: they stay below `2 ^ 63`, so the checked additions of the source
never fail.
-/
namespace MysqlRust

open List Outcome

def crcPoly : BitVec 32 := 0xEDB88320#32

def crc32 (data : List UInt8) : UInt32 := ⟨~~~Crc.run crcPoly 0xFFFFFFFF#32 data⟩

def recordCrc (len : UInt32) (payload : List UInt8) : UInt32 := crc32 (writeU32 len ++ payload)

/-- The length is cast to `u32` without a check. -/
def frameRecord (entryBytes : List UInt8) : List UInt8 :=
  let len := UInt32.ofNat entryBytes.length
  writeU32 len ++ (writeU32 (recordCrc len entryBytes) ++ entryBytes)

inductive StreamRecordRead where
  | ok (entry : Entry) (nextPos : Nat)
  | tornTail
  deriving DecidableEq, Repr

def readExactOrEof (reader : List UInt8) (n : Nat) : Option (List UInt8 × List UInt8) :=
  if n ≤ reader.length then some (reader.take n, reader.drop n) else none

def headerLen (header : List UInt8) : UInt32 := UInt32.ofNat (leValue (header.take 4))

def headerCrc (header : List UInt8) : UInt32 := UInt32.ofNat (leValue ((header.drop 4).take 4))

def readOneRecord (reader : List UInt8) (pos fileLen : Nat) :
    Result (StreamRecordRead × List UInt8) :=
  match readExactOrEof reader 8 with
  | none => .ok (.tornTail, [])
  | some (header, reader) =>
    let len := headerLen header
    let crc := headerCrc header
    let payloadEnd := pos + 8 + len.toNat
    if fileLen < payloadEnd then .ok (.tornTail, reader)
    else
      match readExactOrEof reader len.toNat with
      | none => .ok (.tornTail, [])
      | some (payload, reader) =>
        if recordCrc len payload ≠ crc then
          if payloadEnd = fileLen then .ok (.tornTail, reader)
          else .err (corrupt "checksum mismatch with valid data still following it")
        else do
          let entry ← decodeEntry payload
          pure (.ok entry payloadEnd, reader)

theorem headerLen_write (len : UInt32) (rest : List UInt8) :
    headerLen (writeU32 len ++ rest) = len := by
  have h : leValue (writeU32 len) = len.toNat := leValue_leBytes_of_lt len.toNat_lt
  simp [headerLen, h]

theorem headerCrc_write (len crc : UInt32) : headerCrc (writeU32 len ++ writeU32 crc) = crc := by
  have h : leValue (writeU32 crc) = crc.toNat := leValue_leBytes_of_lt crc.toNat_lt
  have hd : (writeU32 len ++ writeU32 crc).drop 4 = writeU32 crc :=
    drop_left' (writeU32_length len)
  simp [headerCrc, hd, take_of_length_le, h]

theorem exists_writeU32 {bytes : List UInt8} (h : bytes.length = 4) : ∃ n, writeU32 n = bytes := by
  have hlt : leValue bytes < 2 ^ 32 := by simpa [h] using leValue_lt bytes
  exact ⟨UInt32.ofNat (leValue bytes),
    by rw [writeU32, UInt32.toNat_ofNat_of_lt' hlt, ← h, leBytes_leValue]⟩

theorem exists_header {reader : List UInt8} (h : 8 ≤ reader.length) :
    ∃ len crc body, reader = writeU32 len ++ (writeU32 crc ++ body) := by
  obtain ⟨len, hlen⟩ : ∃ len, writeU32 len = reader.take 4 := exists_writeU32 (by simp; omega)
  obtain ⟨crc, hcrc⟩ : ∃ crc, writeU32 crc = (reader.drop 4).take 4 :=
    exists_writeU32 (by simp; omega)
  refine ⟨len, crc, reader.drop 8, ?_⟩
  rw [hlen, hcrc, show reader.drop 8 = (reader.drop 4).drop 4 by simp, take_append_drop,
    take_append_drop]

theorem end_header (len crc : UInt32) (body : List UInt8) (pos : Nat) :
    pos + (writeU32 len ++ (writeU32 crc ++ body)).length = pos + 8 + body.length := by
  simp only [length_append, writeU32_length]
  omega

/-- How a record is judged once its header is there. -/
theorem readOneRecord_header (len crc : UInt32) (body : List UInt8) (pos : Nat) :
    readOneRecord (writeU32 len ++ (writeU32 crc ++ body)) pos (pos + 8 + body.length) =
      if body.length < len.toNat then .ok (.tornTail, body)
      else if recordCrc len (body.take len.toNat) ≠ crc then
        if len.toNat = body.length then .ok (.tornTail, body.drop len.toNat)
        else .err (corrupt "checksum mismatch with valid data still following it")
      else decodeEntry (body.take len.toNat) >>= fun entry =>
        .ok (.ok entry (pos + 8 + len.toNat), body.drop len.toNat) := by
  have h8 : (writeU32 len ++ writeU32 crc).length = 8 := by simp
  have hread : readExactOrEof (writeU32 len ++ (writeU32 crc ++ body)) 8 =
      some (writeU32 len ++ writeU32 crc, body) := by
    rw [readExactOrEof, ← append_assoc, if_pos (by simp; omega), take_left' h8, drop_left' h8]
  simp only [readOneRecord, hread, headerLen_write, headerCrc_write, Nat.add_lt_add_iff_left,
    Nat.add_left_cancel_iff]
  by_cases hlt : body.length < len.toNat
  · simp only [if_pos hlt]
  · simp only [if_neg hlt, readExactOrEof, if_pos (Nat.le_of_not_lt hlt)]
    rfl

section Frames
variable {e : Entry}
variable {n pos next : Nat} {payload reader rest : List UInt8} {len : UInt32}

@[simp] theorem frameRecord_length (payload : List UInt8) :
    (frameRecord payload).length = 8 + payload.length := by
  simp only [frameRecord, length_append, writeU32_length]
  omega

theorem end_frame (payload rest : List UInt8) (pos : Nat) :
    pos + (frameRecord payload ++ rest).length = pos + 8 + payload.length + rest.length := by
  simp only [length_append, frameRecord_length]
  omega

theorem frameRecord_take (payload : List UInt8) (h : 8 ≤ n) :
    (frameRecord payload).take n = writeU32 (UInt32.ofNat payload.length) ++
      (writeU32 (recordCrc (UInt32.ofNat payload.length) payload) ++ payload.take (n - 8)) := by
  simp only [frameRecord, take_append, writeU32_length]
  rw [take_of_length_le (by simp; omega), take_of_length_le (by simp; omega),
    show n - 4 - 4 = n - 8 by omega]

theorem readOneRecord_frame (hlen : payload.length < 2 ^ 32) (rest : List UInt8) (pos : Nat) :
    readOneRecord (frameRecord payload ++ rest) pos
        (pos + (frameRecord payload ++ rest).length) =
      decodeEntry payload >>= fun entry => .ok (.ok entry (pos + 8 + payload.length), rest) := by
  have hn : (UInt32.ofNat payload.length).toNat = payload.length := UInt32.toNat_ofNat_of_lt' hlen
  simp only [frameRecord, append_assoc]
  rw [end_header, readOneRecord_header, hn, if_neg (by simp), take_left, drop_left, if_neg (by simp)]

theorem readOneRecord_torn (hlen : payload.length < 2 ^ 32) (hn : n < 8 + payload.length)
    (pos : Nat) :
    ∃ r, readOneRecord ((frameRecord payload).take n) pos (pos + n) = .ok (.tornTail, r) := by
  by_cases h8 : 8 ≤ n
  · have hl : (UInt32.ofNat payload.length).toNat = payload.length :=
      UInt32.toNat_ofNat_of_lt' hlen
    have htake : (payload.take (n - 8)).length = n - 8 := by
      rw [length_take]
      omega
    have hpos : pos + n = pos + 8 + (payload.take (n - 8)).length := by omega
    refine ⟨payload.take (n - 8), ?_⟩
    rw [frameRecord_take payload h8, hpos, readOneRecord_header, hl, if_pos (by omega)]
  · exact ⟨[], by simp [readOneRecord, readExactOrEof, h8]⟩

/-- A header announcing less than the payload behind it is refused: either the checksum
fails with data still following, or a proper prefix of an entry has to decode. -/
theorem readOneRecord_shortened (he : e.Narrow) (crc : UInt32) (hlen : len.toNat < e.encode.length)
    (rest : List UInt8) (pos : Nat) :
    ∃ x, readOneRecord (writeU32 len ++ (writeU32 crc ++ (e.encode ++ rest))) pos
      (pos + 8 + (e.encode ++ rest).length) = .err x := by
  have hbody : len.toNat < (e.encode ++ rest).length := by
    rw [length_append]
    omega
  rw [readOneRecord_header, if_neg (by omega)]
  by_cases hcrc : recordCrc len ((e.encode ++ rest).take len.toNat) = crc
  · have htake : (e.encode ++ rest).take len.toNat = e.encode.take len.toNat :=
      take_append_of_le_length hlen.le
    have hne : e.encode.take len.toNat ≠ e.encode := fun h => by
      have := congrArg List.length h
      rw [length_take] at this
      omega
    obtain ⟨x, hx⟩ := decodeEntry_properPrefix he ( take_prefix _ _) hne
    exact ⟨x, by rw [if_neg (by simpa using hcrc), htake, hx, err_bind]⟩
  · exact ⟨_, by rw [if_pos hcrc, if_neg (by omega)]⟩

theorem readOneRecord_oversized (he : e.Narrow) (hlen : 2 ^ 32 ≤ e.encode.length)
    (rest : List UInt8) (pos : Nat) :
    ∃ x, readOneRecord (frameRecord e.encode ++ rest) pos
      (pos + (frameRecord e.encode ++ rest).length) = .err x := by
  have hshort : (UInt32.ofNat e.encode.length).toNat < e.encode.length :=
    lt_of_lt_of_le (UInt32.toNat_lt _) hlen
  rw [frameRecord, append_assoc, append_assoc, end_header]
  exact readOneRecord_shortened he _ hshort rest pos

theorem readOneRecord_shrinks {fileLen : Nat}
    (h : readOneRecord reader pos fileLen = .ok (.ok e next, rest)) :
    rest.length < reader.length := by
  unfold readOneRecord readExactOrEof at h
  by_cases h8 : 8 ≤ reader.length
  · simp only [if_pos h8] at h
    split at h
    · simp at h
    · split at h
      · simp at h
      · rename_i payload rest' hread
        split at hread
        · split at h
          · split at h <;> simp at h
          · obtain ⟨_, _, hr⟩ := bind_eq_ok.mp h
            simp only [Option.some.injEq, Prod.mk.injEq] at hread
            simp only [pure_eq, ok.injEq, Prod.mk.injEq] at hr
            obtain ⟨_, rfl⟩ := hread
            obtain ⟨_, rfl⟩ := hr
            simp only [length_drop]
            omega
        · simp at hread
  · simp [if_neg h8] at h

theorem header_eq_frameRecord {body : List UInt8} (h : len.toNat ≤ body.length) :
    writeU32 len ++ (writeU32 (recordCrc len (body.take len.toNat)) ++ body) =
      frameRecord (body.take len.toNat) ++ body.drop len.toNat := by
  have htake : (body.take len.toNat).length = len.toNat := by
    rw [length_take]
    omega
  rw [frameRecord, htake, UInt32.ofNat_toNat, append_assoc, append_assoc, take_append_drop]

/-- A record that is read back is one that was framed. -/
theorem readOneRecord_eq_ok
    (h : readOneRecord reader pos (pos + reader.length) = .ok (.ok e next, rest)) :
    ∃ payload, payload.length < 2 ^ 32 ∧ decodeEntry payload = .ok e ∧
      reader = frameRecord payload ++ rest ∧ next = pos + 8 + payload.length := by
  by_cases h8 : 8 ≤ reader.length
  · obtain ⟨len, crc, body, rfl⟩ := exists_header h8
    rw [end_header, readOneRecord_header] at h
    split at h
    · simp at h
    · split at h
      · split at h <;> simp at h
      · rename_i hle hcrc
        obtain ⟨e', hdec, heq⟩ := bind_eq_ok.mp h
        simp only [ok.injEq, Prod.mk.injEq, StreamRecordRead.ok.injEq] at heq
        obtain ⟨⟨rfl, rfl⟩, rfl⟩ := heq
        have htake : (body.take len.toNat).length = len.toNat := by
          rw [length_take]
          omega
        refine ⟨body.take len.toNat, ?_, hdec, ?_, by rw [htake]⟩
        · rw [htake]
          exact len.toNat_lt
        · rw [← header_eq_frameRecord (Nat.le_of_not_lt hle), not_not.mp hcrc]
  · simp [readOneRecord, readExactOrEof, h8] at h

end Frames

end MysqlRust
