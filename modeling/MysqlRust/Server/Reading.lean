import MysqlRust.Server.Statements

/-! # Reads keep to the discipline

A `SELECT` looks at the schema of a table and reads its rows in a later step. When no column
comes or goes in between, the rows fit the schema and every cell it reads is there.
-/
namespace MysqlRust

open Threads Contract List

section
variable {m : Mode} {ex : Executor} {policy : SyncPolicy} {i : Nat} {locks : List String}
  {l₀ : Conn} {table : String} {schema : TableSchema} {rows : List Row} {s s' : Db} {l : Conn}
variable {filter : Row → Result Bool}

def ReadFails (m : Mode) (i : Nat) (locks : List String) (l₀ : Conn) (e : Option Error) (s : Db)
    (l : Conn) : Prop := (m.quiet → e ≠ none) ∧ Ready i locks l₀ s l

theorem StatementRefused.readFails {e : Option Error} (h : StatementRefused i locks l₀ e s l) :
    ReadFails m i locks l₀ e s l := ⟨fun _ => h.1, h.2⟩

def Found (m : Mode) (i : Nat) (locks : List String) (l₀ : Conn) (width : Nat) (rows : List Row)
    (s : Db) (l : Conn) : Prop := (m.quiet → HaveWidth width rows) ∧ Ready i locks l₀ s l

structure Fetched (m : Mode) (i : Nat) (locks : List String) (l₀ : Conn) (table : String)
    (schema : TableSchema) (rows : List Row) (s : Db) (l : Conn) : Prop where
  ready : Ready i locks l₀ s l
  resolved : l.resolved = some (table, schema)
  rows : m.quiet → HaveWidth schema.columns.length rows
  pending : m.quiet → HaveWidth schema.columns.length (l₀.pending table)

theorem Fetched.rely (h : Fetched m i locks l₀ table schema rows s l)
    (hrely : Db.Relies m i s s') : Fetched m i locks l₀ table schema rows s' l :=
  { h with ready := h.ready.rely hrely }

theorem Fetched.found (h : Fetched m i locks l₀ table schema rows s l) :
    Found m i locks l₀ schema.columns.length rows s l := ⟨h.rows, h.ready⟩

theorem Seen.found (h : Seen m i locks l₀ table schema s l) (hs : s.Ok) (hquiet : m.quiet) :
    ∃ t, s.store.tables.lookup table = some t ∧ HaveWidth schema.columns.length t.rows := by
  obtain ⟨t, ht, hwidth⟩ := h.width hquiet
  exact ⟨t, ht, hwidth ▸ (hs.wf table t ht).width⟩

/-- Pending rows fit the schema, because their table is locked. -/
theorem Seen.pending (h : Seen m i locks l₀ table schema s l) (hquiet : m.quiet) :
    HaveWidth schema.columns.length (l₀.pending table) := by
  rw [← h.ready.like.pending]
  intro row hrow
  obtain ⟨t, ht, hwidth⟩ := h.width hquiet
  obtain ⟨-, u, hu, hadmits⟩ := h.ready.owns.pending table (ne_nil_of_mem hrow)
  cases ht.symm.trans hu
  rw [hadmits.width row hrow, hwidth]

theorem Ready.read (h : Ready i locks l₀ s l) (table : String) :
    Ready i locks l₀ (s.lookAway i) (s.record l table) :=
  ⟨h.like.recorded _ _ _, ⟨h.owns.owner, h.owns.pending⟩, h.phase⟩

theorem read_triple (o : Operation) (read : Store → Result o.Resp) (part : o.Resp → List Row)
    (hrun : ∀ choice s l, o.run i choice s l = some (read s.store, s.lookAway i, s.record l table))
    (howes : ∀ s l, (m.quiet → ∃ schema, l.resolved = some (table, schema) ∧
      ∀ t, s.store.tables.lookup table = some t →
        t.schema.columns.length = schema.columns.length) → o.Owes m i s l)
    (hread : ∀ (s : Db) (t : Table), s.Ok → s.store.tables.lookup table = some t →
      HaveWidth schema.columns.length t.rows → (read s.store).Post fun r => part r ⊆ t.rows) :
    Obeys m ex policy i (Seen m i locks l₀ table schema) (perform o)
      (fun r => Fetched m i locks l₀ table schema (part r)) (ReadFails m i locks l₀) := by
  refine perform_triple (fun _ _ _ => Seen.rely) (fun s l hs h => howes s l fun hquiet => ?_) ?_
  · obtain ⟨t, ht, hwidth⟩ := h.width hquiet
    refine ⟨schema, h.resolved, fun u hu => ?_⟩
    cases ht.symm.trans hu
    exact hwidth
  · intro s l choice r s' l' hs h _ hperform
    rw [hrun] at hperform
    cases hperform
    have hready := h.ready.read table
    have hpost : m.quiet → (read s.store).Post fun r => HaveWidth schema.columns.length (part r) := by
      intro hquiet
      obtain ⟨t, ht, hwidth⟩ := h.found hs hquiet
      exact (hread s t hs ht hwidth).mono fun r hsub row hrow => hwidth row (hsub hrow)
    cases hresult : read s.store with
    | ok r =>
      refine ⟨hready, h.resolved, fun hquiet => ?_, h.pending⟩
      have hwidth := hpost hquiet
      rwa [hresult] at hwidth
    | err e => exact ⟨fun _ => Option.some_ne_none e, hready⟩
    | panic => exact ⟨fun hquiet => absurd hresult (hpost hquiet).ne_panic, hready⟩

theorem scan_triple : Obeys m ex policy i (Seen m i locks l₀ table schema) (perform (.scan table))
      (fun rows => Fetched m i locks l₀ table schema rows) (ReadFails m i locks l₀) := by
  refine read_triple (.scan table) (·.scan table) (fun rows : List Row => rows) (fun _ _ _ => rfl)
    (fun _ _ h => h) fun s t _ ht _ => ?_
  rw [Store.scan, okOr_eq_ok.mpr ht]
  exact List.Subset.refl _

def Decides (width : Nat) (filter : Row → Result Bool) : Prop :=
  ∀ row, row.length = width → (filter row).Post fun _ => True

theorem Decides.filterRows {width : Nat} (h : Decides width filter) (hrows : HaveWidth width rows) :
    (filterRows filter rows).Post fun kept => kept ⊆ rows :=
  filterRows_post fun row hrow => h row (hrows row hrow)

theorem scanFiltered_triple (hfilter : Decides schema.columns.length filter) :
    Obeys m ex policy i (Seen m i locks l₀ table schema)
      (perform (.scanFiltered table filter))
      (fun rows => Fetched m i locks l₀ table schema rows) (ReadFails m i locks l₀) := by
  refine read_triple (.scanFiltered table filter) (·.scanFiltered table filter)
    (fun rows : List Row => rows) (fun _ _ _ => rfl) (fun _ _ h => h) fun s t _ ht hwidth => ?_
  rw [Store.scanFiltered, okOr_eq_ok.mpr ht]
  exact hfilter.filterRows hwidth

theorem lookup_triple {key : Value} : Obeys m ex policy i (Seen m i locks l₀ table schema)
      (perform (.lookupByPrimaryKey table key))
      (fun row => Fetched m i locks l₀ table schema (Option.toList row)) (ReadFails m i locks l₀) := by
  refine read_triple (.lookupByPrimaryKey table key) (·.lookupByPrimaryKey table key)
    (fun row : Option Row => row.toList) (fun _ _ _ => rfl) (fun _ _ h => h) fun s t hs ht _ => ?_
  obtain ⟨found, hfound, hmem, -⟩ := lookupByPrimaryKey_of_ranged ht (hs.ranged table t ht) key
  rw [hfound]
  exact fun row hrow => hmem row (Option.mem_toList.mp hrow)

theorem pendingRows_triple {E : Option Error → Db → Conn → Prop} :
    Obeys m ex policy i (Fetched m i locks l₀ table schema rows)
      (perform (.pendingRows table))
      (fun pending s l => pending = l₀.pending table ∧
        Fetched m i locks l₀ table schema rows s l) E := by
  refine perform_triple (fun _ _ _ => Fetched.rely) (fun s l _ h hquiet => ?_) ?_
  · refine ⟨schema, h.resolved, ?_⟩
    rw [h.ready.like.pending]
    exact h.pending hquiet
  · intro s l choice r s' l' _ h _ hrun
    cases hrun
    obtain ⟨hlike, howns, hphase⟩ := h.ready
    exact ⟨hlike.pending table, { h with ready := ⟨hlike, ⟨howns.owner, howns.pending⟩, hphase⟩ }⟩

structure Fetches (m : Mode) (ex : Executor) (policy : SyncPolicy) (i : Nat) (locks : List String)
    (l₀ : Conn) (storage : Storage Program) : Prop where
  tableSchema : ∀ table, Obeys m ex policy i (Ready i locks l₀)
    (storage.tableSchema table) (fun schema => Seen m i locks l₀ table schema)
    (ReadFails m i locks l₀)
  scan : ∀ table schema, Obeys m ex policy i (Seen m i locks l₀ table schema)
    (storage.scan table) (fun rows => Found m i locks l₀ schema.columns.length rows)
    (ReadFails m i locks l₀)
  scanFiltered : ∀ table schema filter, Decides schema.columns.length filter →
    Obeys m ex policy i (Seen m i locks l₀ table schema)
      (storage.scanFiltered table filter)
      (fun rows => Found m i locks l₀ schema.columns.length rows) (ReadFails m i locks l₀)
  lookupByPrimaryKey : ∀ table schema key, Obeys m ex policy i
    (Seen m i locks l₀ table schema) (storage.lookupByPrimaryKey table key)
    (fun row => Found m i locks l₀ schema.columns.length row.toList) (ReadFails m i locks l₀)

theorem engine_fetches : Fetches m ex policy i locks l₀ engine where
  tableSchema _ := tableSchema_triple.mono (fun _ _ h => h) (fun _ _ _ h => h.1)
    fun _ _ _ => StatementRefused.readFails
  scan _ _ := scan_triple.post fun _ _ _ => Fetched.found
  scanFiltered _ _ _ hfilter := (scanFiltered_triple hfilter).post fun _ _ _ => Fetched.found
  lookupByPrimaryKey _ _ _ := lookup_triple.post fun _ _ _ => Fetched.found

theorem overlay_scan (table : String) (schema : TableSchema) :
    Obeys m ex policy i (Seen m i locks l₀ table schema) (Overlay.scan table)
      (fun rows => Found m i locks l₀ schema.columns.length rows) (ReadFails m i locks l₀) := by
  refine .bind scan_triple fun rows => ?_
  refine .bind pendingRows_triple fun pending => .of_fact fun heq => ?_
  subst heq
  exact .pure fun s l _ h =>
    ⟨fun hquiet => (h.rows hquiet).append (h.pending hquiet), h.ready⟩

theorem overlay_scanFiltered (table : String) (schema : TableSchema) {filter : Row → Result Bool}
    (hfilter : Decides schema.columns.length filter) :
    Obeys m ex policy i (Seen m i locks l₀ table schema)
      (Overlay.scanFiltered table filter)
      (fun rows => Found m i locks l₀ schema.columns.length rows) (ReadFails m i locks l₀) := by
  refine .bind (scanFiltered_triple hfilter) fun rows => ?_
  refine .bind pendingRows_triple fun pending => .of_fact fun heq => ?_
  subst heq
  refine .pre (P := fun s l => (m.quiet →
    HaveWidth schema.columns.length (l₀.pending table)) ∧ Fetched m i locks l₀ table schema rows s l)
    (Triple.of_fact fun hpending => ?_) fun s l h => ⟨h.pending, h⟩
  refine .bind ((Triple.lift_when fun hquiet =>
    hfilter.filterRows (hpending hquiet)).fail fun e s l h => ⟨h.1, h.2.ready⟩) fun kept => ?_
  refine .of_fact fun hsub => .pure fun s l _ h => ?_
  refine ⟨fun hquiet => (h.rows hquiet).append ?_, h.ready⟩
  exact (hpending hquiet).subset fun row hrow => hsub hquiet hrow

theorem Seen.fetched_nil {table : String} {schema : TableSchema} {s : Db} {l : Conn}
    (h : Seen m i locks l₀ table schema s l) : Fetched m i locks l₀ table schema [] s l :=
  ⟨h.ready, h.resolved, fun _ => nofun, h.pending⟩

theorem overlay_lookup (table : String) (schema : TableSchema) (key : Value) :
    Obeys m ex policy i (Seen m i locks l₀ table schema)
      (Overlay.lookupByPrimaryKey table key)
      (fun row => Found m i locks l₀ schema.columns.length row.toList) (ReadFails m i locks l₀) := by
  refine .bind lookup_triple fun committed => ?_
  cases committed with
  | some row => exact .pure fun s l _ h => h.found
  | none =>
    refine .pre (P := fun s l => (m.quiet →
      HaveWidth schema.columns.length (l₀.pending table)) ∧ Ready i locks l₀ s l)
      (Triple.of_fact fun hpending => ?_) fun s l h => ⟨h.pending, h.ready⟩
    refine .bind (tableSchema_triple.mono (fun _ _ h => h) (fun _ _ _ h => h.1)
      fun _ _ _ => StatementRefused.readFails) fun schema' => ?_
    cases hkey : TableSchema.keyIndex schema' with
    | none => exact .pure fun s l _ h => ⟨fun _ => nofun, h.ready⟩
    | some pkIdx =>
      refine .bind (pendingRows_triple.pre fun _ _ => Seen.fetched_nil) fun rows =>
        Triple.of_fact fun heq => ?_
      subst heq
      refine .pre (P := fun s l => (m.quiet →
        HaveWidth schema'.columns.length (l₀.pending table)) ∧ Ready i locks l₀ s l)
        (Triple.of_fact fun hagain => ?_) fun s l h => ⟨h.pending, h.ready⟩
      have hfound : m.quiet → (Transaction.findKey pkIdx key (l₀.pending table)).Post fun row =>
          HaveWidth schema.columns.length row.toList := by
        intro hquiet
        have hfits : ∀ row ∈ l₀.pending table, pkIdx < row.length := fun row hrow =>
          hagain hquiet row hrow ▸ Table.keyIndex_lt hkey
        rw [Transaction.findKey_eq_find key hfits]
        refine (hpending hquiet).subset fun row hrow => ?_
        exact mem_of_find?_eq_some (Option.mem_toList.mp hrow)
      exact .lift_when hfound

theorem overlay_fetches : Fetches m ex policy i locks l₀ overlay where
  tableSchema := engine_fetches.tableSchema
  scan := overlay_scan
  scanFiltered table schema _ := overlay_scanFiltered table schema
  lookupByPrimaryKey := overlay_lookup

variable {storage : Storage Program}

theorem ReadFails.of_seen {table : String} {schema : TableSchema} {e : Option Error} {s : Db}
    {l : Conn} (h : (m.quiet → e ≠ none) ∧ Seen m i locks l₀ table schema s l) :
    ReadFails m i locks l₀ e s l := ⟨h.1, h.2.ready⟩

theorem scanAndFilter_keeps (hstorage : Fetches m ex policy i locks l₀ storage)
    (table qualifier : String) (schema : TableSchema) (selection : Option Condition) :
    Obeys m ex policy i (Seen m i locks l₀ table schema)
      (scanAndFilter storage table qualifier schema selection)
      (fun rows => Found m i locks l₀ schema.columns.length rows) (ReadFails m i locks l₀) := by
  cases selection with
  | none => exact hstorage.scan table schema
  | some cond =>
    refine .bind ((Triple.lift_post (resolveSingleTableColumn_post _ _ _)).fail
      fun e s l h => .of_seen ⟨fun _ => h.1, h.2⟩) fun colIdx => .of_fact fun hidx => ?_
    refine .bind ((Triple.lift_post (Outcome.index_post hidx)).fail
      fun e s l h => .of_seen ⟨fun _ => h.1, h.2⟩) fun column => .of_fact fun _ => ?_
    refine .bind ((Triple.lift_post (coerce_post _ _ _)).fail
      fun e s l h => .of_seen ⟨fun _ => h.1, h.2⟩) fun expected => .of_fact fun _ => ?_
    refine .ite (fun _ => ?_) fun _ => ?_
    · refine .bind (hstorage.lookupByPrimaryKey table schema expected) fun row => ?_
      exact .pure fun s l _ h => h
    · refine hstorage.scanFiltered table schema _ fun row hrow => ?_
      exact (Outcome.index_post (hrow.symm ▸ hidx)).bind fun _ _ => trivial

def Joined (m : Mode) (i : Nat) (locks : List String) (l₀ : Conn) (acc : Scope × List Row) :
    Db → Conn → Prop := Found m i locks l₀ acc.1.columns.length acc.2

theorem joinTable_keeps (hstorage : Fetches m ex policy i locks l₀ storage)
    (acc : Scope × List Row) (join : JoinClause) :
    Obeys m ex policy i (Joined m i locks l₀ acc) (joinTable storage acc join)
      (Joined m i locks l₀) (ReadFails m i locks l₀) := by
  refine .of_fact fun hacc => ?_
  refine .bind (hstorage.tableSchema join.table.name) fun schema => ?_
  refine .bind ((Triple.lift_post (joinColumns_post join)).fail
    fun e s l h => .of_seen ⟨fun _ => h.1, h.2⟩) fun columns => .of_fact fun hcolumns => ?_
  obtain ⟨left, right⟩ := columns
  refine .bind (hstorage.scan join.table.name schema) fun newRows =>
    Triple.of_fact fun hrows => ?_
  refine .bind (Triple.lift_when fun hquiet =>
    hashJoin_post (hacc hquiet) (hrows hquiet) hcolumns.1 hcolumns.2) fun joined => ?_
  refine .of_fact fun hjoined => .pure fun s l _ h => ⟨fun hquiet => ?_, h⟩
  show HaveWidth (acc.1.columns ++ schema.columns).length joined
  rw [length_append]
  exact hjoined hquiet

theorem resolveJoins_keeps (hstorage : Fetches m ex policy i locks l₀ storage)
    (fromClause : FromClause) :
    Obeys m ex policy i (Ready i locks l₀) (resolveJoins storage fromClause)
      (Joined m i locks l₀) (ReadFails m i locks l₀) := by
  refine .bind (hstorage.tableSchema fromClause.table.name) fun schema => ?_
  refine .bind (hstorage.scan fromClause.table.name schema) fun rows => ?_
  exact .foldlM (fun acc join _ => joinTable_keeps hstorage acc join)
    (Scope.single fromClause.table.qualifier schema.columns, rows)

theorem resolveFrom_keeps (hstorage : Fetches m ex policy i locks l₀ storage)
    (fromClause : FromClause) (selection : Option Condition) :
    Obeys m ex policy i (Ready i locks l₀)
      (resolveFrom storage fromClause selection) (Joined m i locks l₀) (ReadFails m i locks l₀) := by
  refine .ite (fun _ => ?_) fun _ => ?_
  · refine .bind (hstorage.tableSchema fromClause.table.name) fun schema => ?_
    refine .bind (scanAndFilter_keeps hstorage _ _ schema selection) fun rows => ?_
    exact .pure fun s l _ h => h
  · refine .bind (resolveJoins_keeps hstorage fromClause) fun p => ?_
    obtain ⟨scope, rows⟩ := p
    refine .of_fact fun hrows => ?_
    refine .bind (Triple.lift_when fun hquiet =>
      applyWhere_post (hrows hquiet) selection) fun kept => ?_
    exact .pure fun s l _ h => h

/-- A `SELECT` changes nothing; in a quiet run it does not panic. -/
theorem executeSelect_keeps (hstorage : Fetches m ex policy i locks l₀ storage) (query : Select) :
    Obeys m ex policy i (Ready i locks l₀) (executeSelect ex storage query)
      (fun _ => Ready i locks l₀) (ReadFails m i locks l₀) := by
  unfold executeSelect
  cases query.fromClause with
  | none =>
    exact (Triple.lift_when fun _ => executeSelectWithoutTable_post _ _ _ _).post
      fun _ _ _ h => h.2
  | some fromClause =>
    refine .bind (resolveFrom_keeps hstorage fromClause query.selection) fun p => ?_
    obtain ⟨scope, rows⟩ := p
    refine .of_fact fun hrows => .ite (fun _ => ?_) fun _ => ?_
    · exact (Triple.lift_when fun hquiet =>
        executeAggregate_post (hrows hquiet) _ _ _ _ _).post fun _ _ _ h => h.2
    · exact (Triple.lift_when fun hquiet =>
        executeProjected_post (hrows hquiet) _ _ _ _).post fun _ _ _ h => h.2

end

end MysqlRust
