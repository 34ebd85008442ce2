import MysqlRust.Storage.LogOpen
import MysqlRust.Storage.StoreInvariants

/-! # Checkpoints

A checkpoint rewrites the log as one `CREATE TABLE` record and one record with all rows per
table, followed by the databases, in a temporary file that replaces the log by a rename.
-/
namespace MysqlRust

open Outcome List

def snapshotTable (p : String × Table) : List Entry :=
  .createTable p.1 p.2.schema.columns p.2.schema.primaryKey ::
    if p.2.rows = [] then [] else [.transaction (p.2.rows.map fun row => (p.1, row))]

/-- The records of a checkpoint, for one iteration order of tables and databases. -/
def snapshot (ts : List (String × Table)) (ds : List String) : List Entry :=
  ts.flatMap snapshotTable ++ ds.map .createDatabase

/-- The list names exactly the tables of the store. -/
def Enumerates (ts : List (String × Table)) (tables : Finmap fun _ : String => Table) : Prop :=
  ∀ name t, (name, t) ∈ ts ↔ tables.lookup name = some t

/-- The log file and the temporary file beside it. -/
structure Disk where
  path : List UInt8
  tmp : Option (List UInt8)

/-- How far a checkpoint has come. -/
inductive Stage where
  | replayed
  | writing
  | synced
  | renamed

/-- The steps of a checkpoint; the process may stop between any two. -/
inductive CheckpointStep (threshold : Nat) (framed : List UInt8) :
    Stage × Disk → Stage × Disk → Prop
  | create {d : Disk} (h : threshold ≤ d.path.length) :
      CheckpointStep threshold framed (.replayed, d) (.writing, { d with tmp := some [] })
  | write {path part chunk : List UInt8} (h : part ++ chunk <+: framed) :
      CheckpointStep threshold framed (.writing, ⟨path, some part⟩)
        (.writing, ⟨path, some (part ++ chunk)⟩)
  | sync {path : List UInt8} :
      CheckpointStep threshold framed (.writing, ⟨path, some framed⟩) (.synced, ⟨path, some framed⟩)
  | rename {path : List UInt8} :
      CheckpointStep threshold framed (.synced, ⟨path, some framed⟩) (.renamed, ⟨framed, none⟩)

section
variable {ts : List (String × Table)}

theorem pushRows_of_table (s : Store) (name : String) (rows : List Row) (t : Table) :
    (rows.map fun row => (name, row)).foldlM pushRow (s.setTable name t) =
      rows.foldlM Table.pushTrusted t >>= fun t' => .ok (s.setTable name t') := by
  induction rows generalizing t with
  | nil => rfl
  | cons row rows ih =>
    have hset : ∀ t', (s.setTable name t).setTable name t' = s.setTable name t' := by
      intro t'
      simp [Store.setTable, Finmap.insert_insert]
    rw [map_cons, foldlM_cons, foldlM_cons]
    simp only [pushRow, lookup_setTable, hset, bind_assoc, pure_eq, ok_bind, ih]

/-- The records of a derived table put exactly this table into any store. -/
theorem replay_snapshotTable (s : Store) {p : String × Table} (hp : p.2.Derived) :
    (snapshotTable p).foldlM applyEntry s = .ok (s.setTable p.1 p.2) := by
  have hfold : p.2.rows.foldlM Table.pushTrusted
      (Table.new p.2.schema.columns p.2.schema.primaryKey) = .ok p.2 := hp
  rw [snapshotTable, foldlM_cons, applyEntry, ok_bind]
  split
  · rename_i hrows
    rw [hrows, foldlM_nil, pure_eq, Outcome.ok.injEq] at hfold
    rw [foldlM_nil, hfold, pure_eq]
  · rw [foldlM_cons, applyEntry, pushRows_of_table, hfold, ok_bind, ok_bind]
    rfl

theorem replay_snapshotTables (hts : ∀ p ∈ ts, p.2.Derived) (s : Store) :
    (ts.flatMap snapshotTable).foldlM applyEntry s =
      .ok (ts.foldl (fun s p => s.setTable p.1 p.2) s) := by
  induction ts generalizing s with
  | nil => rfl
  | cons p ts ih =>
    rw [flatMap_cons, foldlM_append, replay_snapshotTable s (hts p mem_cons_self),
      ok_bind, ih fun q hq => hts q (mem_cons_of_mem p hq), foldl_cons]

theorem lookup_foldl_setTable {tables : Finmap fun _ : String => Table}
    (hts : ∀ p ∈ ts, tables.lookup p.1 = some p.2) {s : Store}
    (hs : ∀ name t, s.tables.lookup name = some t → tables.lookup name = some t) (name : String)
    (t : Table) :
    (ts.foldl (fun s p => s.setTable p.1 p.2) s).tables.lookup name = some t ↔
      s.tables.lookup name = some t ∨ (name, t) ∈ ts := by
  induction ts generalizing s with
  | nil => simp
  | cons p ts ih =>
    obtain ⟨other, u⟩ := p
    have hu : tables.lookup other = some u := hts (other, u) mem_cons_self
    have hlookup : ∀ n v, (s.setTable other u).tables.lookup n = some v ↔
        n = other ∧ v = u ∨ n ≠ other ∧ s.tables.lookup n = some v := by
      intro n v
      by_cases heq : n = other
      · subst heq
        simp [eq_comm]
      · simp [lookup_setTable_of_ne s other u heq, heq]
    rw [foldl_cons, ih (fun q hq => hts q (mem_cons_of_mem _ hq)), hlookup, mem_cons, Prod.mk.injEq]
    · by_cases heq : name = other
      · subst heq
        have hsame : s.tables.lookup name = some t → t = u := fun h =>
          Option.some.inj ((hs name t h).symm.trans hu)
        tauto
      · tauto
    · intro n v hv
      rcases (hlookup n v).mp hv with ⟨rfl, rfl⟩ | ⟨-, hv⟩
      · exact hu
      · exact hs n v hv

@[simp] theorem databases_foldl_setTable (ts : List (String × Table)) (s : Store) :
    (ts.foldl (fun s p => s.setTable p.1 p.2) s).databases = s.databases := by
  induction ts generalizing s with
  | nil => rfl
  | cons p ts ih => rw [foldl_cons, ih, databases_setTable]

theorem replay_databases (ds : List String) (s : Store) :
    (ds.map Entry.createDatabase).foldlM applyEntry s =
      .ok { s with databases := ds.toFinset ∪ s.databases } := by
  induction ds generalizing s with
  | nil => simp
  | cons d ds ih =>
    rw [map_cons, foldlM_cons, applyEntry, ok_bind, ih]
    simp [Finset.insert_union]

theorem replay_snapshot {st : Store} (hst : st.Derived) (hts : Enumerates ts st.tables)
    {ds : List String} (hds : ds.toFinset = st.databases) :
    (snapshot ts ds).foldlM applyEntry Store.empty = .ok st := by
  have hmem : ∀ p ∈ ts, st.tables.lookup p.1 = some p.2 := fun p hp => (hts p.1 p.2).mp hp
  rw [snapshot, foldlM_append,
    replay_snapshotTables (fun p hp => hst p.1 p.2 (hmem p hp)), ok_bind, replay_databases,
    hds, databases_foldl_setTable]
  have htables : (ts.foldl (fun s p => s.setTable p.1 p.2) Store.empty).tables = st.tables := by
    refine Finmap.ext_lookup fun name => Option.ext fun t => ?_
    have hnone : ∀ n t, Store.empty.tables.lookup n = some t → st.tables.lookup n = some t := by
      intro n t h
      simp [Store.empty] at h
    rw [lookup_foldl_setTable hmem hnone, ← hts name t]
    simp [Store.empty]
  rw [htables]
  simp [Store.empty]

variable {s s' : Store} {t t' : Table} {rows : List Row} {name : String}

def TableSchema.Narrow (schema : TableSchema) : Prop :=
  (∀ c ∈ schema.columns, c.Narrow) ∧ ∀ pk ∈ schema.primaryKey, StringNarrow pk

structure Store.Named (s : Store) : Prop where
  tables : ∀ name t, s.tables.lookup name = some t → StringNarrow name ∧ t.schema.Narrow
  databases : ∀ d ∈ s.databases, (Entry.createDatabase d).encode.length < 2 ^ 32

theorem computeAlteredTable_narrow {change : SchemaChange} (ht : t.schema.Narrow)
    (hc : change.Narrow) (h : computeAlteredTable t change = .ok t') : t'.schema.Narrow := by
  obtain ⟨hcols, hpk⟩ := ht
  rw [(computeAlteredTable_eq_ok h).1]
  cases change with
  | addColumn column isPrimaryKey =>
    refine ⟨forall_mem_append.mpr ⟨hcols, forall_mem_singleton.mpr hc⟩, fun pk hmem => ?_⟩
    simp only [SchemaChange.alteredSchema] at hmem
    split at hmem
    · cases hmem
      exact hc
    · exact hpk pk hmem
  | dropColumn name =>
    exact ⟨fun c hmem => hcols c (mem_of_mem_eraseIdx hmem),
      fun pk hmem => hpk pk (Option.mem_filter_iff.mp hmem).1⟩
  | modifyColumn newCol =>
    refine ⟨fun c hmem => ?_, hpk⟩
    rcases mem_or_eq_of_mem_set hmem with hmem | rfl
    · exact hcols c hmem
    · exact hc
  | addPrimaryKey name =>
    refine ⟨fun c hmem => ?_, fun pk hmem => ?_⟩
    · obtain ⟨j, hj⟩ := mem_iff_getElem?.mp hmem
      simp only [SchemaChange.alteredSchema, List.getElem?_modify, Option.map_eq_map,
        Option.map_eq_some_iff] at hj
      obtain ⟨d, hd, rfl⟩ := hj
      have hd := hcols d (mem_of_getElem? hd)
      split <;> exact hd
    · cases hmem
      exact hc
  | dropPrimaryKey =>
    refine ⟨fun c hmem => ?_, nofun⟩
    obtain ⟨d, hd, rfl⟩ := mem_map.mp hmem
    have hd := hcols d hd
    split <;> exact hd

theorem Store.Named.setTable (hs : s.Named) (hname : StringNarrow name) (ht : t.schema.Narrow) :
    (s.setTable name t).Named := by
  refine ⟨fun other u hu => ?_, hs.databases⟩
  by_cases heq : other = name
  · subst heq
    rw [lookup_setTable] at hu
    cases hu
    exact ⟨hname, ht⟩
  · rw [lookup_setTable_of_ne s name t heq] at hu
    exact hs.tables other u hu

theorem pushRow_named {p : String × Row} (hs : s.Named) (h : pushRow s p = .ok s') : s'.Named := by
  rcases pushRow_eq_ok h with ⟨-, rfl⟩ | ⟨t, t', ht, hpush, rfl⟩
  · exact hs
  · obtain ⟨hname, hschema⟩ := hs.tables p.1 t ht
    exact hs.setTable hname ((Table.pushTrusted_eq_ok hpush).1 ▸ hschema)

theorem applyEntry_named {e : Entry} (hs : s.Named) (he : e.encode.length < 2 ^ 32)
    (h : applyEntry s e = .ok s') : s'.Named := by
  have hnarrow := Entry.narrow_of_length he
  cases e with
  | createTable table columns primaryKey =>
    cases h
    exact hs.setTable hnarrow.1 ⟨hnarrow.2.2.2, hnarrow.2.1⟩
  | insertRow table row => exact pushRow_named hs h
  | transaction rows => exact foldlM_invariant (fun _ _ _ => pushRow_named) hs h
  | createDatabase name =>
    cases h
    refine ⟨hs.tables, ?_⟩
    intro d hd
    rcases Finset.mem_insert.mp hd with rfl | hd
    · exact he
    · exact hs.databases d hd
  | dropDatabase name =>
    cases h
    exact ⟨hs.tables, fun d hd => hs.databases d (Finset.mem_of_mem_erase hd)⟩
  | alterTable table change =>
    rcases applyAlter_eq_ok h with rfl | ⟨t, altered, ht, haltered, rfl⟩
    · exact hs
    · obtain ⟨hname, hschema⟩ := hs.tables table t ht
      exact hs.setTable hname (computeAlteredTable_narrow hschema hnarrow.2 haltered)

theorem replay_derived_named {es : List Entry} (hes : Framable es) {st : Store} (hs : s.Derived)
    (hs' : s.Named) (h : es.foldlM applyEntry s = .ok st) : st.Derived ∧ st.Named := by
  induction es generalizing s with
  | nil =>
    cases h
    exact ⟨hs, hs'⟩
  | cons e es ih =>
    rw [foldlM_cons] at h
    obtain ⟨s₁, h₁, h⟩ := bind_eq_ok.mp h
    exact ih (fun f hf => hes f (mem_cons_of_mem e hf)) (applyEntry_derived hs h₁)
      (applyEntry_named hs' (hes e mem_cons_self) h₁) h

theorem named_empty : Store.empty.Named :=
  ⟨fun name t h => by simp [Store.empty] at h, fun d hd => by simp [Store.empty] at hd⟩

variable {file : List UInt8} {content : Option (List UInt8)} {st : Store}

/-- The record of the rows of each table fits its header. -/
def RowsFit (ts : List (String × Table)) : Prop :=
  ∀ p ∈ ts, p.2.rows ≠ [] →
    (Entry.transaction (p.2.rows.map fun row => (p.1, row))).encode.length < 2 ^ 32

/-- The record of the schema of each table fits its header. -/
def SchemasFit (ts : List (String × Table)) : Prop :=
  ∀ p ∈ ts, (Entry.createTable p.1 p.2.schema.columns p.2.schema.primaryKey).encode.length < 2 ^ 32

/-- Opening a log of these bytes restores the store. -/
def OpensTo (bytes : List UInt8) (st : Store) : Prop :=
  ∃ file, Log.open applyEntry Store.empty (some bytes) = .ok (st, file)

/-- However far a checkpoint gets, the log is the old one or the snapshot. -/
theorem checkpoint_path {threshold : Nat} {framed file : List UInt8} {stale : Option (List UInt8)}
    {stage : Stage} {disk : Disk}
    (h : Relation.ReflTransGen (CheckpointStep threshold framed) (.replayed, ⟨file, stale⟩)
      (stage, disk)) : disk.path = file ∨ disk.path = framed := by
  suffices hinv : ∀ c, Relation.ReflTransGen (CheckpointStep threshold framed)
      (.replayed, ⟨file, stale⟩) c → c.2.path = file ∨ c.2.path = framed from hinv _ h
  intro c hc
  induction hc with
  | refl => exact .inl rfl
  | tail _ hstep ih =>
    cases hstep with
    | create => exact ih
    | write => exact ih
    | sync => exact ih
    | rename => exact .inr rfl

theorem forall_mem_snapshot {P : Entry → Prop} {ts : List (String × Table)} {ds : List String} :
    (∀ e ∈ snapshot ts ds, P e) ↔
      (∀ p ∈ ts, P (.createTable p.1 p.2.schema.columns p.2.schema.primaryKey)) ∧
      (∀ p ∈ ts, p.2.rows ≠ [] → P (.transaction (p.2.rows.map fun row => (p.1, row)))) ∧
      ∀ d ∈ ds, P (.createDatabase d) := by
  have htable : ∀ p, (∀ e ∈ snapshotTable p, P e) ↔
      P (.createTable p.1 p.2.schema.columns p.2.schema.primaryKey) ∧
      (p.2.rows ≠ [] → P (.transaction (p.2.rows.map fun row => (p.1, row)))) := by
    intro p
    by_cases hrows : p.2.rows = [] <;> simp [snapshotTable, hrows]
  simp only [snapshot, mem_append, mem_flatMap, mem_map, or_imp, forall_and,
    forall_exists_index, and_imp, forall_apply_eq_imp_iff₂]
  constructor
  · rintro ⟨hts, hds⟩
    have h := fun p hp => (htable p).mp fun e => hts e p hp
    exact ⟨fun p hp => (h p hp).1, fun p hp => (h p hp).2, hds⟩
  · rintro ⟨hcreate, hrows, hds⟩
    exact ⟨fun e p hp => (htable p).mpr ⟨hcreate p hp, hrows p hp⟩ e, hds⟩

/-- The snapshot opens to the store, and so does the log wherever the checkpoint stops. -/
def CheckpointPreserves (threshold : Nat) (file : List UInt8) (st : Store)
    (ts : List (String × Table)) (ds : List String) : Prop :=
  OpensTo (logBytes (snapshot ts ds)) st ∧ ∀ stale stage disk, Relation.ReflTransGen
      (CheckpointStep threshold (logBytes (snapshot ts ds))) (.replayed, ⟨file, stale⟩)
      (stage, disk) → OpensTo disk.path st

theorem opensTo_of_open (h : Log.open applyEntry Store.empty content = .ok (st, file)) :
    OpensTo file st := by
  cases content with
  | none =>
    cases h
    exact ⟨[], open_verified Store.empty .nil⟩
  | some bytes => exact ⟨file, open_open Store.empty h⟩

theorem derived_named_of_open (h : Log.open applyEntry Store.empty content = .ok (st, file)) :
    st.Derived ∧ st.Named := by
  cases content with
  | none =>
    cases h
    exact ⟨all_empty, named_empty⟩
  | some bytes =>
    obtain ⟨ps, es, hv, -, -, hfold⟩ := open_eq_ok Store.empty h
    exact replay_derived_named hv.framable all_empty named_empty hfold

/-- A checkpoint of a replayed store preserves it, wherever it is interrupted, when the
records of the table schemas fit their headers too; for tables of fewer than `2 ^ 32`
columns it does so only then. -/
theorem checkpoint_preserves_schemasFit (threshold : Nat) {content : Option (List UInt8)}
    {st : Store} {file : List UInt8}
    (hopen : Log.open applyEntry Store.empty content = .ok (st, file))
    {ts : List (String × Table)} (hts : Enumerates ts st.tables) {ds : List String}
    (hds : ds.toFinset = st.databases) (hrows : RowsFit ts) :
    (SchemasFit ts → CheckpointPreserves threshold file st ts ds) ∧
    ((∀ p ∈ ts, p.2.schema.columns.length < 2 ^ 32) →
      CheckpointPreserves threshold file st ts ds → SchemasFit ts) := by
  obtain ⟨hderived, hnamed⟩ := derived_named_of_open hopen
  have hdbs : ∀ d ∈ ds, (Entry.createDatabase d).encode.length < 2 ^ 32 := fun d hd =>
    hnamed.databases d (hds ▸ mem_toFinset.mpr hd)
  constructor
  · intro hfit
    have hframable : Framable (snapshot ts ds) := forall_mem_snapshot.mpr ⟨hfit, hrows, hdbs⟩
    have hsnap : OpensTo (logBytes (snapshot ts ds)) st := by
      refine ⟨logBytes (snapshot ts ds), ?_⟩
      rw [open_logBytes Store.empty hframable, replay_snapshot hderived hts hds, ok_bind]
    refine ⟨hsnap, ?_⟩
    intro stale stage disk hrun
    rcases checkpoint_path hrun with hpath | hpath
    · rw [hpath]
      exact opensTo_of_open hopen
    · rw [hpath]
      exact hsnap
  · rintro hcols ⟨⟨file', hsnap⟩, -⟩
    have hnarrow : ∀ e ∈ snapshot ts ds, e.Narrow := by
      refine forall_mem_snapshot.mpr ⟨fun p hp => ?_, fun p hp hne =>
        Entry.narrow_of_length (hrows p hp hne), fun d hd => Entry.narrow_of_length (hdbs d hd)⟩
      obtain ⟨hname, hcolumns, hkey⟩ := hnamed.tables p.1 p.2 ((hts p.1 p.2).mp hp)
      exact ⟨hname, hkey, hcols p hp, hcolumns⟩
    by_contra hfit
    refine open_oversized_ne_ok Store.empty hnarrow (fun hframable => hfit ?_) _ hsnap
    exact (forall_mem_snapshot.mp hframable).1

theorem enumerates_setTable (name : String) (t : Table) :
    Enumerates [(name, t)] (Store.empty.setTable name t).tables := by
  intro other u
  by_cases heq : other = name
  · subst heq
    simp [eq_comm]
  · simp [lookup_setTable_of_ne _ _ _ heq, heq, Store.empty]

def intColumn (name : String) : ColumnSchema := ⟨name, .int, true, false⟩

/-- A log of a database and of a table with rows and a column added later. -/
def usedLog : List Entry :=
  [.createDatabase "shop", .createTable "t" [⟨"id", .int, false, true⟩] (some "id"),
    .transaction [("t", [.int 5]), ("t", [.int 2])],
    .alterTable "t" (.addColumn (intColumn "n") false)]

def usedTable : Table where
  schema := ⟨[⟨"id", .int, false, true⟩, intColumn "n"], some "id"⟩
  primaryKeyIndex := some 0
  rows := [[.int 5, .null], [.int 2, .null]]
  index := Finmap.insert (.int 2) 1 (Finmap.insert (.int 5) 0 ∅)
  autoIncrement := some (0, 6)

def usedStore : Store := ⟨(Store.empty.setTable "t" usedTable).tables, {"shop"}⟩

/-- The checkpoint of a table with rows whose counter has moved, and of a database. -/
theorem checkpoint_preserves_used :
    CheckpointPreserves 0 (logBytes usedLog) usedStore [("t", usedTable)] ["shop"] := by
  have hreplay : usedLog.foldlM applyEntry Store.empty = .ok usedStore := by decide
  have hopen : Log.open applyEntry Store.empty (some (logBytes usedLog)) =
      .ok (usedStore, logBytes usedLog) := by
    rw [open_logBytes Store.empty (by decide), hreplay, ok_bind]
  refine (checkpoint_preserves_schemasFit 0 hopen (enumerates_setTable _ _) rfl ?_).1 ?_
  all_goals
    intro p hp
    rw [mem_singleton.mp hp]
    decide

end

def longName (c : Char) : String := String.ofList (List.replicate (2 ^ 31) c)

def wideLog (b c : String) : List Entry :=
  [.createTable "t" [intColumn "a"] none, .alterTable "t" (.addColumn (intColumn b) false),
    .alterTable "t" (.addColumn (intColumn c) false)]

def wideTable (b c : String) : Table := Table.new [intColumn "a", intColumn b, intColumn c] none

theorem addColumn_new {columns : List ColumnSchema} {column : ColumnSchema}
    (h : ∀ c ∈ columns, c.name ≠ column.name) :
    computeAlteredTable (Table.new columns none) (.addColumn column false) =
      .ok (Table.new (columns ++ [column]) none) := by
  have hany : (columns.any fun c => c.name = column.name) = false := by simpa using h
  simp [computeAlteredTable, addColumn, Table.new, hany, pushMapped]

theorem replay_wideLog {b c : String} (hb : "a" ≠ b) (hc : "a" ≠ c) (hbc : b ≠ c) :
    (wideLog b c).foldlM applyEntry Store.empty =
      .ok (Store.empty.setTable "t" (wideTable b c)) := by
  have hset : ∀ t t', (Store.empty.setTable "t" t).setTable "t" t' = Store.empty.setTable "t" t' :=
    fun t t' => by simp [Store.setTable, Finmap.insert_insert]
  have h₁ : computeAlteredTable (Table.new [intColumn "a"] none) (.addColumn (intColumn b) false) =
      .ok (Table.new [intColumn "a", intColumn b] none) :=
    addColumn_new (by simpa [intColumn] using hb)
  have h₂ : computeAlteredTable (Table.new [intColumn "a", intColumn b] none)
      (.addColumn (intColumn c) false) = .ok (wideTable b c) :=
    addColumn_new (by simp [intColumn, hc, hbc])
  simp [wideLog, applyEntry, applyAlter, h₁, h₂, hset]

theorem snapshot_wideTable {b c : String} (hb : (utf8 b).length = 2 ^ 31)
    (hc : (utf8 c).length = 2 ^ 31) (hbc : b ≠ c) :
    Log.open applyEntry Store.empty (some (logBytes (wideLog b c))) =
      .ok (Store.empty.setTable "t" (wideTable b c), logBytes (wideLog b c)) ∧
    ¬ OpensTo (logBytes (snapshot [("t", wideTable b c)] []))
      (Store.empty.setTable "t" (wideTable b c)) := by
  have ha : (utf8 "a").length = 1 := by decide
  have ht : (utf8 "t").length = 1 := by decide
  constructor
  · have hframable : Framable (wideLog b c) := by
      simp [Framable, wideLog, intColumn, Entry.encode, encodeCreateTable, encodeAlterTable,
        writeSchemaChange, writeColumnSchema, writeColumnType, writePrimaryKey, ha, ht, hb, hc]
    have hab : "a" ≠ b := by
      rintro rfl
      omega
    have hac : "a" ≠ c := by
      rintro rfl
      omega
    rw [open_logBytes Store.empty hframable, replay_wideLog hab hac hbc, ok_bind]
  · rintro ⟨file, hfile⟩
    have hsnap : snapshot [("t", wideTable b c)] [] =
        [.createTable "t" [intColumn "a", intColumn b, intColumn c] none] := rfl
    refine open_oversized_ne_ok Store.empty ?_ ?_ _ hfile
    · rw [hsnap]
      simp [Entry.Narrow, StringNarrow, ColumnSchema.Narrow, intColumn, ha, ht, hb, hc]
    · rw [hsnap]
      simp [Framable, intColumn, Entry.encode, encodeCreateTable, writeColumnSchema,
        writeColumnType, writePrimaryKey, ha, ht, hb, hc]

/-- Two columns with long names, added one by one to a table without rows: the table's own
record in the snapshot is too long, and the snapshot does not open. -/
theorem checkpoint_wide_schema : ∃ st file, Log.open applyEntry Store.empty
        (some (logBytes (wideLog (longName 'b') (longName 'c')))) = .ok (st, file) ∧
      ∃ ts, Enumerates ts st.tables ∧ [].toFinset = st.databases ∧ RowsFit ts ∧
        ∀ threshold, ¬ CheckpointPreserves threshold file st ts [] := by
  have hne : longName 'b' ≠ longName 'c' := by
    rw [Ne, longName, longName, String.ofList_inj, replicate_inj]
    decide
  obtain ⟨hopen, hsnap⟩ := snapshot_wideTable (utf8_length_replicate _ rfl)
    (utf8_length_replicate _ rfl) hne
  refine ⟨_, _, hopen, _, enumerates_setTable _ _, rfl, ?_, fun threshold h => hsnap h.1⟩
  intro p hp hrows
  rw [mem_singleton.mp hp] at hrows
  exact absurd rfl hrows

end MysqlRust
