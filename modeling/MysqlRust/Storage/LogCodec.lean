import Mathlib.Algebra.Order.BigOperators.Group.List
import MysqlRust.Storage.LogEntry

/-! # The log codec reads back exactly what it writes

Every writer of the log format meets its reader's `Exact` contract once the lengths it narrows to
`u32` fit.
-/
namespace MysqlRust

open List Outcome

/-- The strings and lists whose lengths the format narrows are shorter than `2 ^ 32`. -/
def StringNarrow (s : String) : Prop := (utf8 s).length < 2 ^ 32

def Value.Narrow : Value → Prop
  | .varchar s => StringNarrow s
  | .date s => StringNarrow s
  | _ => True

def RowNarrow (row : Row) : Prop := row.length < 2 ^ 32 ∧ ∀ v ∈ row, v.Narrow

def ColumnSchema.Narrow (col : ColumnSchema) : Prop := StringNarrow col.name

def SchemaChange.Narrow : SchemaChange → Prop
  | .addColumn column _ => column.Narrow
  | .dropColumn name => StringNarrow name
  | .modifyColumn column => column.Narrow
  | .addPrimaryKey name => StringNarrow name
  | .dropPrimaryKey => True

def Entry.Narrow : Entry → Prop
  | .createTable table columns primaryKey => StringNarrow table ∧
      (∀ pk ∈ primaryKey, StringNarrow pk) ∧ columns.length < 2 ^ 32 ∧ ∀ c ∈ columns, c.Narrow
  | .insertRow table row => StringNarrow table ∧ RowNarrow row
  | .transaction rows => rows.length < 2 ^ 32 ∧ ∀ p ∈ rows, StringNarrow p.1 ∧ RowNarrow p.2
  | .createDatabase name => StringNarrow name
  | .dropDatabase name => StringNarrow name
  | .alterTable table change => StringNarrow table ∧ change.Narrow

section
open Reader

theorem readU32_exact (n : UInt32) : Exact readU32 (writeU32 n) n := by
  have h := (Exact.slice (corrupt "truncated u32") (writeU32 n)).bind_pure
    fun bytes => UInt32.ofNat (leValue bytes)
  have hn : leValue (writeU32 n) = n.toNat := leValue_leBytes_of_lt n.toNat_lt
  rw [hn, UInt32.ofNat_toNat] at h
  exact h

theorem readI64_exact (n : Int64) : Exact readI64 (writeI64 n) n := by
  have h := (Exact.slice (corrupt "truncated i64") (writeI64 n)).bind_pure
    fun bytes => Int64.ofUInt64 (UInt64.ofNat (leValue bytes))
  have hn : leValue (writeI64 n) = n.toUInt64.toNat :=
    leValue_leBytes_of_lt n.toUInt64.toNat_lt
  rw [hn, UInt64.ofNat_toNat] at h
  exact h

theorem fromUtf8_utf8 (s : String) : fromUtf8 (utf8 s) = pure s := by
  simp only [fromUtf8, fromUTF8?_utf8]

theorem readString_exact {s : String} (h : StringNarrow s) :
    Exact readString (writeString s) s := by
  have hlen : (UInt32.ofNat (utf8 s).length).toNat = (utf8 s).length :=
    UInt32.toNat_ofNat_of_lt' h
  refine (readU32_exact (UInt32.ofNat (utf8 s).length)).bind ?_
  rw [hlen]
  have hs := Exact.bind (f := fromUtf8) (Exact.slice (corrupt "truncated string") (utf8 s))
    (by rw [fromUtf8_utf8]; exact .pure s)
  rwa [append_nil] at hs

theorem readValue_exact {v : Value} (h : v.Narrow) : Exact readValue (writeValue v) v := by
  cases v with
  | null => exact .tagged _ _ (.pure _)
  | int n => exact .tagged _ _ ((readI64_exact n).bind_pure _)
  | varchar s => exact .tagged _ _ ((readString_exact h).bind_pure _)
  | decimal unscaled scale =>
    exact .tagged _ _ ((readI64_exact unscaled).bind ((Exact.byte _ scale).bind_pure _))
  | date s => exact .tagged _ _ ((readString_exact h).bind_pure _)

theorem readTableRow_exact {table : String} {row : Row} (ht : StringNarrow table)
    (hr : RowNarrow row) : Exact readTableRow (writeTableRow table row) (table, row) := by
  have hlen : (UInt32.ofNat row.length).toNat = row.length := UInt32.toNat_ofNat_of_lt' hr.1
  refine (readString_exact ht).bind ((readU32_exact _).bind ?_)
  rw [hlen]
  exact (Exact.many row fun v hv => readValue_exact (hr.2 v hv)).bind_pure _

theorem readColumnType_exact (t : ColumnType) : Exact readColumnType (writeColumnType t) t := by
  cases t with
  | int => exact .tagged _ _ (.pure _)
  | varchar => exact .tagged _ _ (.pure _)
  | date => exact .tagged _ _ (.pure _)
  | decimal scale => exact .tagged _ _ ((Exact.byte _ scale).bind_pure _)

theorem columnFlags_nullable (col : ColumnSchema) :
    (columnFlags col &&& columnFlagNullable != 0) = col.nullable := by
  unfold columnFlags
  cases col.nullable <;> cases col.autoIncrement <;> rfl

theorem columnFlags_autoIncrement (col : ColumnSchema) :
    (columnFlags col &&& columnFlagAutoIncrement != 0) = col.autoIncrement := by
  unfold columnFlags
  cases col.nullable <;> cases col.autoIncrement <;> rfl

theorem readColumnSchema_exact {col : ColumnSchema} (h : col.Narrow) :
    Exact readColumnSchema (writeColumnSchema col) col := by
  refine (readString_exact h).bind ((readColumnType_exact col.columnType).bind ?_)
  have hflags := (Exact.byte (corrupt "truncated tag byte") (columnFlags col)).bind_pure
    fun flags => ColumnSchema.mk col.name col.columnType (flags &&& columnFlagNullable != 0)
      (flags &&& columnFlagAutoIncrement != 0)
  rw [columnFlags_nullable, columnFlags_autoIncrement] at hflags
  exact hflags

theorem readPrimaryKey_exact {pk : Option String} (h : ∀ s ∈ pk, StringNarrow s) :
    Exact readPrimaryKey (writePrimaryKey pk) pk := by
  cases pk with
  | none => exact .tagged _ _ (.pure _)
  | some s => exact .tagged _ _ ((readString_exact (h s rfl)).bind_pure _)

theorem readSchemaChange_exact {change : SchemaChange} (h : change.Narrow) :
    Exact readSchemaChange (writeSchemaChange change) change := by
  cases change with
  | addColumn column isPrimaryKey =>
    have hb := (Exact.byte (corrupt "truncated tag byte")
      (if isPrimaryKey then 1 else 0 : UInt8)).bind_pure
        fun b => SchemaChange.addColumn column (b != 0)
    have hflag : ((if isPrimaryKey then 1 else 0 : UInt8) != 0) = isPrimaryKey := by
      cases isPrimaryKey <;> rfl
    rw [hflag] at hb
    exact .tagged _ _ ((readColumnSchema_exact h).bind hb)
  | dropColumn name => exact .tagged _ _ ((readString_exact h).bind_pure _)
  | modifyColumn column => exact .tagged _ _ ((readColumnSchema_exact h).bind_pure _)
  | addPrimaryKey name => exact .tagged _ _ ((readString_exact h).bind_pure _)
  | dropPrimaryKey => exact .tagged _ _ (.pure _)

/-- Every record that narrows nothing is read back as it was written. -/
theorem readEntry_exact {e : Entry} (h : e.Narrow) : Exact readEntry e.encode e := by
  cases e with
  | createTable table columns primaryKey =>
    obtain ⟨ht, hpk, hlen, hcols⟩ := h
    have hn : (UInt32.ofNat columns.length).toNat = columns.length :=
      UInt32.toNat_ofNat_of_lt' hlen
    refine .tagged _ _ ((readString_exact ht).bind ((readPrimaryKey_exact hpk).bind
      ((readU32_exact _).bind ?_)))
    rw [hn]
    exact (Exact.many columns fun c hc => readColumnSchema_exact (hcols c hc)).bind_pure _
  | insertRow table row =>
    exact .tagged _ _ ((readTableRow_exact h.1 h.2).bind_pure
      fun p => Entry.insertRow p.1 p.2)
  | transaction rows =>
    obtain ⟨hlen, hrows⟩ := h
    have hn : (UInt32.ofNat rows.length).toNat = rows.length := UInt32.toNat_ofNat_of_lt' hlen
    refine .tagged _ _ ((readU32_exact _).bind ?_)
    rw [hn]
    exact (Exact.many rows fun p hp => readTableRow_exact (hrows p hp).1 (hrows p hp).2).bind_pure _
  | createDatabase name => exact .tagged _ _ ((readString_exact h).bind_pure _)
  | dropDatabase name => exact .tagged _ _ ((readString_exact h).bind_pure _)
  | alterTable table change =>
    exact .tagged _ _ ((readString_exact h.1).bind ((readSchemaChange_exact h.2).bind_pure _))

variable {n : Nat} {α : Type} {f : α → List UInt8} {xs : List α}

theorem length_le_flatMap {a : α} (ha : a ∈ xs) : (f a).length ≤ (xs.flatMap f).length := by
  rw [length_flatMap]
  exact le_sum_of_mem (mem_map_of_mem (f := fun x => (f x).length) ha)

theorem count_le_flatMap (h : ∀ a ∈ xs, 1 ≤ (f a).length) : xs.length ≤ (xs.flatMap f).length := by
  have hone : ∀ n ∈ xs.map fun a => (f a).length, 1 ≤ n := by simpa using h
  have hsum := length_le_sum_of_one_le _ hone
  rwa [length_map, ← length_flatMap] at hsum

@[simp] theorem writeU32_length (n : UInt32) : (writeU32 n).length = 4 := leBytes_length 4 _

@[simp] theorem writeI64_length (n : Int64) : (writeI64 n).length = 8 := leBytes_length 8 _

@[simp] theorem writeString_length (s : String) : (writeString s).length = 4 + (utf8 s).length := by
  simp [writeString]

theorem writeValue_pos (v : Value) : 1 ≤ (writeValue v).length := by
  cases v <;> simp [writeValue]

theorem Value.narrow_of_length {v : Value} (h : (writeValue v).length ≤ n) (hn : n < 2 ^ 32) :
    v.Narrow := by
  cases v <;> simp only [Value.Narrow, StringNarrow, writeValue, length_cons,
    writeString_length] at h ⊢ <;> omega

theorem tableRow_narrow_of_length {table : String} {row : Row}
    (h : (writeTableRow table row).length ≤ n) (hn : n < 2 ^ 32) :
    StringNarrow table ∧ RowNarrow row := by
  simp only [writeTableRow, length_append, writeString_length, writeU32_length] at h
  have hcount : row.length ≤ (row.flatMap writeValue).length :=
    count_le_flatMap fun v _ => writeValue_pos v
  refine ⟨?_, ?_, fun v hv => Value.narrow_of_length (n := n) ?_ hn⟩
  · unfold StringNarrow
    omega
  · omega
  · have hv' := length_le_flatMap (f := writeValue) hv
    omega

theorem ColumnSchema.narrow_of_length {col : ColumnSchema} (h : (writeColumnSchema col).length ≤ n)
    (hn : n < 2 ^ 32) : col.Narrow := by
  simp only [writeColumnSchema, length_append, writeString_length] at h
  unfold ColumnSchema.Narrow StringNarrow
  omega

/-- Every list element takes a byte, so a payload under `2 ^ 32` bytes narrows nothing. -/
theorem Entry.narrow_of_length {e : Entry} (h : e.encode.length < 2 ^ 32) : e.Narrow := by
  cases e with
  | createTable table columns primaryKey =>
    simp only [Entry.encode, encodeCreateTable, length_cons, length_append,
      writeString_length, writeU32_length] at h
    have hcount : columns.length ≤ (columns.flatMap writeColumnSchema).length :=
      count_le_flatMap fun c _ => by simp [writeColumnSchema]; omega
    refine ⟨?_, ?_, ?_, fun c hc => ?_⟩
    · unfold StringNarrow
      omega
    · intro pk hpk
      cases hpk
      simp only [writePrimaryKey, length_cons, writeString_length] at h
      unfold StringNarrow
      omega
    · omega
    · have hc' := length_le_flatMap (f := writeColumnSchema) hc
      exact ColumnSchema.narrow_of_length hc' (by omega)
  | insertRow table row =>
    simp only [Entry.encode, encodeInsertRow, length_cons] at h
    exact tableRow_narrow_of_length le_rfl (by omega)
  | transaction rows =>
    simp only [Entry.encode, encodeTransaction, length_cons, length_append, writeU32_length] at h
    have hcount : rows.length ≤ (rows.flatMap fun p => writeTableRow p.1 p.2).length :=
      count_le_flatMap fun p _ => by simp [writeTableRow]; omega
    refine ⟨by omega, ?_⟩
    intro p hp
    have hp' := length_le_flatMap (f := fun p => writeTableRow p.1 p.2) hp
    exact tableRow_narrow_of_length hp' (by omega)
  | createDatabase name =>
    simp only [Entry.encode, encodeCreateDatabase, length_cons, writeString_length] at h
    unfold Entry.Narrow StringNarrow
    omega
  | dropDatabase name =>
    simp only [Entry.encode, encodeDropDatabase, length_cons, writeString_length] at h
    unfold Entry.Narrow StringNarrow
    omega
  | alterTable table change =>
    simp only [Entry.encode, encodeAlterTable, length_cons, length_append, writeString_length] at h
    refine ⟨by unfold StringNarrow; omega, ?_⟩
    cases change with
    | addColumn column isPrimaryKey =>
      simp only [writeSchemaChange, length_cons, length_append] at h
      exact ColumnSchema.narrow_of_length le_rfl (by omega)
    | modifyColumn column =>
      simp only [writeSchemaChange, length_cons] at h
      exact ColumnSchema.narrow_of_length le_rfl (by omega)
    | dropPrimaryKey => trivial
    | dropColumn name | addPrimaryKey name =>
      simp only [writeSchemaChange, length_cons, writeString_length] at h
      unfold SchemaChange.Narrow StringNarrow
      omega

/-- Decoding an entry's encoding returns the entry. -/
theorem decodeEntry_encode (e : Entry) (h : e.Narrow) : decodeEntry e.encode = .ok e := by
  have hr := (readEntry_exact h).reads [] []
  simp only [nil_append, append_nil, length_nil] at hr
  rw [decodeEntry, hr, map_ok]

theorem decodeEntry_encode_transaction :
    (Entry.transaction [("t", [.int 7, .null]), ("u", [.varchar "x"])]).Narrow ∧
    decodeEntry (Entry.transaction [("t", [.int 7, .null]), ("u", [.varchar "x"])]).encode =
      .ok (.transaction [("t", [.int 7, .null]), ("u", [.varchar "x"])]) := by
  have h : (Entry.transaction [("t", [.int 7, .null]), ("u", [.varchar "x"])]).Narrow := by
    simp only [Entry.Narrow, RowNarrow, Value.Narrow, StringNarrow, mem_cons,
      not_mem_nil, or_false, forall_eq_or_imp, forall_eq]
    decide
  exact ⟨h, decodeEntry_encode _ h⟩

theorem decodeEntry_append {e : Entry} (h : e.Narrow) (extra : List UInt8) :
    decodeEntry (e.encode ++ extra) = .ok e := by
  have hr := (readEntry_exact h).reads [] extra
  simp only [nil_append, length_nil] at hr
  rw [decodeEntry, hr, map_ok]

theorem decodeEntry_properPrefix {e : Entry} (h : e.Narrow) {p : List UInt8}
    (hp : p <+: e.encode) (hne : p ≠ e.encode) : ∃ x, decodeEntry p = .err x := by
  obtain ⟨x, hx⟩ := (readEntry_exact h).stops [] p hp hne
  simp only [nil_append, length_nil] at hx
  exact ⟨x, by rw [decodeEntry, hx, map_err]⟩

theorem readByte_covers : Covers readByte fun _ => 1 := Covers.byte _

theorem readU32_covers : Covers readU32 fun _ => 4 :=
  (Covers.slice 4 _).bind fun bs => .pure (by omega)

theorem readI64_covers : Covers readI64 fun _ => 8 :=
  (Covers.slice 8 _).bind fun bs => .pure (by omega)

theorem readString_covers : Covers readString fun s => (writeString s).length := by
  refine readU32_covers.bind fun len => (Covers.slice len.toNat _).bind fun bytes => ?_
  unfold fromUtf8
  split
  · rename_i s hs
    refine .pure ?_
    rw [writeString_length, utf8_of_fromUTF8? hs]
    omega
  · exact .fail _ _

theorem readValue_covers : Covers readValue fun v => (writeValue v).length := by
  refine readByte_covers.bind fun tag => .ite (Covers.pure ?_) (.ite
    (readI64_covers.bind fun n => .pure ?_) (.ite
    (readString_covers.bind fun s => .pure ?_) (.ite
    (readI64_covers.bind fun n => readByte_covers.bind fun scale => .pure ?_) (.ite
    (readString_covers.bind fun s => .pure ?_) (Covers.fail _ _)))))
  all_goals simp [writeValue]

theorem readColumnType_covers : Covers readColumnType fun t => (writeColumnType t).length := by
  refine readByte_covers.bind fun tag => .ite (Covers.pure ?_) (.ite (Covers.pure ?_) (.ite
    (Covers.pure ?_) (.ite (readByte_covers.bind fun scale => .pure ?_) (Covers.fail _ _))))
  all_goals simp [writeColumnType]

theorem readColumnSchema_covers : Covers readColumnSchema fun c => (writeColumnSchema c).length := by
  refine readString_covers.bind fun name => readColumnType_covers.bind fun type =>
    readByte_covers.bind fun flags => .pure ?_
  simp only [writeColumnSchema, length_append, length_singleton]
  omega

theorem readPrimaryKey_covers : Covers readPrimaryKey fun pk => (writePrimaryKey pk).length := by
  refine readByte_covers.bind fun flag => .ite (Covers.pure ?_) (.ite
    (readString_covers.bind fun pk => .pure ?_) (Covers.fail _ _))
  all_goals simp [writePrimaryKey]

theorem readTableRow_covers : Covers readTableRow fun p => (writeTableRow p.1 p.2).length := by
  refine readString_covers.bind fun table => readU32_covers.bind fun count =>
    (Covers.many readValue_covers _).bind fun row => .pure ?_
  simp only [writeTableRow, length_append, writeU32_length, length_flatMap]
  omega

theorem readSchemaChange_covers : Covers readSchemaChange fun c => (writeSchemaChange c).length := by
  refine readByte_covers.bind fun tag => .ite
    (readColumnSchema_covers.bind fun column => readByte_covers.bind fun flag => .pure ?_) (.ite
    (readString_covers.bind fun name => .pure ?_) (.ite
    (readColumnSchema_covers.bind fun column => .pure ?_) (.ite
    (readString_covers.bind fun name => .pure ?_) (.ite (Covers.pure ?_) (Covers.fail _ _)))))
  all_goals simp [writeSchemaChange]

theorem readEntry_covers : Covers readEntry fun e => e.encode.length := by
  refine readByte_covers.bind fun tag => .ite
    (readString_covers.bind fun table => readPrimaryKey_covers.bind fun pk =>
      readU32_covers.bind fun count => (Covers.many readColumnSchema_covers _).bind fun columns =>
        Covers.pure ?_) (.ite
    (readTableRow_covers.bind fun p => .pure ?_) (.ite
    (readU32_covers.bind fun count => (Covers.many readTableRow_covers _).bind fun rows =>
      Covers.pure ?_) (.ite
    (readString_covers.bind fun name => .pure ?_) (.ite
    (readString_covers.bind fun name => .pure ?_) (.ite
    (readString_covers.bind fun table => readSchemaChange_covers.bind fun change =>
      Covers.pure ?_) (Covers.fail _ _))))))
  · simp only [Entry.encode, encodeCreateTable, length_cons, length_append,
      writeU32_length, length_flatMap]
    omega
  · simp [Entry.encode, encodeInsertRow]
  · simp only [Entry.encode, encodeTransaction, length_cons, length_append,
      writeU32_length, length_flatMap]
    omega
  · simp [Entry.encode, encodeCreateDatabase]
  · simp [Entry.encode, encodeDropDatabase]
  · simp only [Entry.encode, encodeAlterTable, length_cons, length_append]
    omega

/-- Whatever a payload decodes to takes no more bytes to write than were read. -/
theorem decodeEntry_length_le {payload : List UInt8} {e : Entry} (h : decodeEntry payload = .ok e) :
    e.encode.length ≤ payload.length := by
  obtain ⟨⟨e', pos⟩, hr, rfl⟩ := map_eq_ok.mp h
  obtain ⟨hstart, hend⟩ := readEntry_covers payload 0 e' pos (Nat.zero_le _) hr
  dsimp only at hstart ⊢
  omega

end

instance : readByte.Safe := by unfold readByte; infer_instance

instance : readU32.Safe := by unfold readU32; infer_instance

instance : readI64.Safe := by unfold readI64; infer_instance

instance (bytes : List UInt8) : (fromUtf8 bytes).Safe := by
  unfold fromUtf8
  split <;> infer_instance

instance : readString.Safe := by unfold readString; infer_instance

instance : readColumnSchema.Safe := by unfold readColumnSchema readColumnType; infer_instance

instance : readValue.Safe := by unfold readValue; infer_instance

instance : readPrimaryKey.Safe := by unfold readPrimaryKey; infer_instance

instance : readTableRow.Safe := by unfold readTableRow; infer_instance

instance : readSchemaChange.Safe := by unfold readSchemaChange; infer_instance

instance : readEntry.Safe := by unfold readEntry; infer_instance

theorem decodeEntry_ne_panic (bytes : List UInt8) : decodeEntry bytes ≠ .panic := by
  have h := Reader.Safe.ne_panic (r := readEntry) bytes 0
  unfold decodeEntry
  cases hr : readEntry bytes 0 with
  | ok p => simp
  | err x => simp
  | panic => exact absurd hr h

end MysqlRust
