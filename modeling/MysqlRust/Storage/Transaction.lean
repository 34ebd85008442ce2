import MysqlRust.Storage.Engine
import MysqlRust.Storage.LogRecord

/-! # The record of a transaction

`COMMIT` hands all pending rows of a transaction to the engine as one batch, which is logged
as one record. Nothing bounds the size of that record, but its header holds 32 bits.
-/
namespace MysqlRust

open List

/-- The one batch a `COMMIT` inserts: the pending rows of every table. -/
def Transaction.commit (pending : List (String × List Row)) : Call :=
  .insertRows (pending.flatMap fun p => p.2.map fun row => (p.1, row))

/-- The header of a record tells its length, and the record reads back, exactly when the
payload is shorter than `2 ^ 32` bytes. -/
theorem frameRecord_faithful_iff (e : Entry) :
    ((headerLen (frameRecord e.encode)).toNat = e.encode.length ∧
      readOneRecord (frameRecord e.encode) 0 (frameRecord e.encode).length =
        .ok (.ok e (8 + e.encode.length), [])) ↔ e.encode.length < 2 ^ 32 := by
  constructor
  · rintro ⟨hheader, -⟩
    rw [← hheader]
    exact UInt32.toNat_lt _
  · intro hlen
    have hdec : decodeEntry e.encode = .ok e := by
      simpa only [append_nil] using decodeEntry_append (Entry.narrow_of_length hlen) []
    have hread := readOneRecord_frame hlen [] 0
    rw [append_nil, Nat.zero_add, hdec, Outcome.ok_bind, Nat.zero_add] at hread
    refine ⟨?_, hread⟩
    rw [frameRecord, headerLen_write, UInt32.toNat_ofNat_of_lt' hlen]

def oneColumnStore : Store := Store.empty.setTable "t" (Table.new [⟨"a", .int, true, false⟩] none)

theorem check_commit_replicate {n : Nat} (hn : n ≠ 0) :
    check oneColumnStore (Transaction.commit [("t", replicate n [.int 1])]) = .ok true := by
  have hrow : ∀ seen, checkBatchRow oneColumnStore seen ("t", [.int 1]) = .ok seen := by
    intro seen
    simp [checkBatchRow, checkRow, oneColumnStore, okOr, Table.checkInsertable,
      Table.primaryKeyValue, Table.new, TableSchema.keyIndex]
  have hfold : ∀ m seen, (replicate m ("t", [Value.int 1])).foldlM
      (checkBatchRow oneColumnStore) seen = .ok seen := by
    intro m seen
    induction m with
    | zero => rfl
    | succ m ih => rw [replicate_succ, foldlM_cons, hrow, Outcome.ok_bind, ih]
  simp [check, Transaction.commit, hn, hfold]

theorem encode_commit_length (n : Nat) :
    (Transaction.commit [("t", replicate n [.int 1])]).entry.encode.length = 5 + 18 * n := by
  have hrow : (writeTableRow "t" [.int 1]).length = 18 := by decide
  simp [Transaction.commit, Call.entry, Entry.encode, encodeTransaction, hrow]
  omega

theorem entry_commit_narrow {n : Nat} (hn : n < 2 ^ 32) :
    (Transaction.commit [("t", replicate n [.int 1])]).entry.Narrow := by
  have ht : (utf8 "t").length = 1 := by decide
  simpa [Transaction.commit, Call.entry, Entry.Narrow, StringNarrow, RowNarrow, Value.Narrow, ht]
    using hn

theorem frame_commit_oversized {n : Nat} (hn : n < 2 ^ 32) (hlen : 2 ^ 32 ≤ 5 + 18 * n) :
    let payload := (Transaction.commit [("t", replicate n [.int 1])]).entry.encode
    (headerLen (frameRecord payload)).toNat ≠ payload.length ∧
      ∃ x, readOneRecord (frameRecord payload) 0 (frameRecord payload).length = .err x := by
  have hnarrow := entry_commit_narrow hn
  rw [← encode_commit_length n] at hlen
  refine ⟨fun heq => ?_, ?_⟩
  · rw [← heq] at hlen
    exact absurd (UInt32.toNat_lt _) (Nat.not_lt.mpr hlen)
  · obtain ⟨x, hx⟩ := readOneRecord_oversized hnarrow hlen [] 0
    rw [append_nil, Nat.zero_add] at hx
    exact ⟨x, hx⟩

/-- A `COMMIT` of `2 ^ 28` small rows passes its check; its record announces another length
than it has and is refused when read back. -/
theorem frameRecord_large_commit :
    check oneColumnStore (Transaction.commit [("t", replicate (2 ^ 28) [.int 1])]) = .ok true ∧
    let payload := (Transaction.commit [("t", replicate (2 ^ 28) [.int 1])]).entry.encode
    (headerLen (frameRecord payload)).toNat ≠ payload.length ∧
      ∃ x, readOneRecord (frameRecord payload) 0 (frameRecord payload).length = .err x :=
  ⟨check_commit_replicate (by decide), frame_commit_oversized (by decide) (by decide)⟩

end MysqlRust
