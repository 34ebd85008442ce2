import MysqlRust.Server.Connections

/-! # Schema changes while others work

`ALTER TABLE` takes no lock. A `COMMIT` passes its validation when it is applied to no locked
table; rows fit the schema when it also leaves alone the tables that are being read.
-/
namespace MysqlRust

section
variable {ex : Executor} {policy : SyncPolicy} {store : Store} {file : List UInt8} {w : World}
  {i : Nat}

/-- `COMMIT`, or the commit before `BEGIN`, passes the validation of `insert_rows`, and an
error it returns is the answer of the log. -/
theorem commit_meets_no_conflict (hwf : store.Wf) (hranged : store.All Table.Ranged)
    (hrun : Runs.Reach (machine ex policy).step AltersUnlocked (World.start store file) w)
    (hcommits : (w.threads i).state.commits) :
    (∀ c, w.next i = some (.check c) → ∃ go, check w.shared.store c = .ok go) ∧
      ∀ r, w.result i = some r →
        r.isOk = true ∨ ∃ e, r = .err e ∧ (w.threads i).state.ack = some (.err e) := by
  have hholds : (discipline plainMode ex policy).Holds w :=
    discipline_sound.run (start_holds hwf hranged file)
      (Runs.Reach.mono hrun fun _ _ halters => discipline_allows halters False.elim False.elim)
  constructor
  · intro c hnext
    obtain ⟨k, htask⟩ := next_task hnext
    exact hholds.pre htask hcommits
  · intro r hresult
    exact (hholds.task (result_eq hresult)).committed hcommits

theorem twoTables_wf : twoTables.Wf := by
  have ha : ({ Table.new [⟨"x", .int, true, false⟩] none with rows := [[.int 7]] } : Table).Wf :=
    ⟨rfl, rfl, by decide⟩
  exact (all_empty.setTable ha "a").setTable (Table.new_wf _ _) "b"

theorem twoTables_ranged : twoTables.All Table.Ranged := by
  have ha : ({ Table.new [⟨"x", .int, true, false⟩] none with rows := [[.int 7]] } : Table).Ranged := by
    simp [Table.Ranged, Table.new]
  exact (all_empty.setTable ha "a").setTable (Table.new_ranged _ _) "b"

def insertSchedule (table : String) : List MachineEvent :=
  .start 1 (.execute .begin) :: steps 1 2 ++ [.finish 1] ++ .start 1 (insertInto table 7) :: steps 1 4

def logOne : List MachineEvent := [.outside (.drain 1), .outside (.write .done), .outside .ack]

def addColumnSchedule (table : String) : List MachineEvent :=
  .start 2 (.execute (.alterTable table (.addColumn ⟨"z", "INT", false, true, false⟩))) ::
    steps 2 2 ++ logOne ++ steps 2 2 ++ [.finish 2]

def commitSchedule (table : String) : List MachineEvent :=
  [.finish 1, .start 1 (.execute .commit), .perform 1 ⟨false, [table]⟩] ++ steps 1 2

def runSchedule (store : Store) (schedule : List MachineEvent) : Option World :=
  schedule.foldlM (machine plainExecutor .always).step (World.start store [])

def Statement.commits : Statement → Bool
  | .begin | .commit => true
  | _ => false

instance (l : Conn) : Decidable l.commits :=
  decidable_of_iff (l.current.any Statement.commits = true) (by
    unfold Conn.commits
    cases l.current with
    | none => simp
    | some st => cases st <;> simp [Statement.commits])

def calmSchedule : List MachineEvent :=
  insertSchedule "b" ++ addColumnSchedule "a" ++ commitSchedule "b" ++ logOne ++ steps 1 3

theorem commit_meets_no_conflict_calm :
    ∃ w : World, runSchedule twoTables calmSchedule = some w ∧ (w.threads 1).state.commits ∧
      w.result 1 = some (.ok (.affected 0)) ∧ ∀ r, w.result 1 = some r →
        r.isOk = true ∨ ∃ e, r = .err e ∧ (w.threads 1).state.ack = some (.err e) := by
  have hallowed : Runs.Allowed (machine plainExecutor .always).step AltersUnlocked
      (World.start twoTables []) calmSchedule := by
    decide +kernel
  have hstate : ∃ w ∈ runSchedule twoTables calmSchedule, (w.threads 1).state.commits ∧
      World.result w 1 = some (.ok (.affected 0)) := by
    decide +kernel
  obtain ⟨w, hw, hcommits, hresult⟩ := hstate
  refine ⟨w, hw, hcommits, hresult, ?_⟩
  exact (commit_meets_no_conflict twoTables_wf twoTables_ranged (hallowed.reach hw) hcommits).2

/-- The transaction has inserted a row into table `b`; the column that another connection adds
to the table makes its `COMMIT` fail. -/
theorem commit_fails_after_alter : ∃ w ∈ runSchedule twoTables (insertSchedule "b"),
      World.result w 1 = some (.ok (.affected 1)) ∧
      ∃ w' ∈ (addColumnSchedule "b" ++ commitSchedule "b").foldlM
        (machine plainExecutor .always).step w,
        (w'.threads 1).state.commits ∧ (w'.threads 1).state.ack = none ∧
        World.result w' 1 = some (.err (columnCountMismatch "b" 2 1)) := by
  decide +kernel

def Operation.reads : Operation → Option String
  | .scan table | .scanFiltered table _ | .lookupByPrimaryKey table _ => some table
  | _ => none

def Conn.Resolves (l : Conn) (table : String) (rows : List Row) : Prop :=
  ∃ schema, l.resolved = some (table, schema) ∧ HaveWidth schema.columns.length rows

/-- The rows a statement reads, committed or pending, fit the schema it has looked up for
them, and no statement panics. -/
theorem rows_fit_schema (hwf : store.Wf) (hranged : store.All Table.Ranged)
    (hrun : Runs.Reach (machine ex policy).step (fun w e => AltersUnlocked w e ∧ LooksUndisturbed w e)
      (World.start store file) w) :
    (∀ o table t, w.next i = some o → o.reads = some table →
        w.shared.store.tables.lookup table = some t → (w.threads i).state.Resolves table t.rows) ∧
      (∀ table, w.next i = some (.pendingRows table) →
        (w.threads i).state.Resolves table ((w.threads i).state.pending table)) ∧
      ∀ r, w.result i = some r → r ≠ .panic := by
  let m : Mode := ⟨False, True, .empty⟩
  have hholds : (discipline m ex policy).Holds w :=
    discipline_sound.run (start_holds hwf hranged file)
      (Runs.Reach.mono hrun fun _ _ h => discipline_allows h.1 False.elim fun _ => h.2)
  refine ⟨fun o table t hnext hreads ht => ?_, fun table hnext => ?_, fun r hresult => ?_⟩
  · obtain ⟨k, htask⟩ := next_task hnext
    have hwidth : ∃ schema, (w.threads i).state.resolved = some (table, schema) ∧
        ∀ t, w.shared.store.tables.lookup table = some t →
          t.schema.columns.length = schema.columns.length := by
      have hpre := hholds.pre htask
      cases o with
      | scan | scanFiltered | lookupByPrimaryKey =>
        cases hreads
        exact hpre trivial
      | _ => cases hreads
    obtain ⟨schema, hresolved, hwidth⟩ := hwidth
    exact ⟨schema, hresolved, hwidth t ht ▸ (hholds.inv.wf table t ht).width⟩
  · obtain ⟨k, htask⟩ := next_task hnext
    exact hholds.pre htask trivial
  · exact (hholds.task (result_eq hresult)).safe trivial

def lookSchedule (table : String) : List MachineEvent :=
  .start 1 (.execute (.select ⟨[.wildcard], some ⟨⟨table, none⟩, []⟩, none, [], [], none, none⟩)) ::
    steps 1 1

/-- A column is added to another table between the look and the scan. -/
theorem rows_fit_schema_otherTable :
    ∃ w : World, runSchedule twoTables (lookSchedule "a" ++ addColumnSchedule "b") = some w ∧
      (w.next 1).bind Operation.reads = some "a" ∧ (w.threads 1).state.Resolves "a" [[.int 7]] := by
  have hallowed : Runs.Allowed (machine plainExecutor .always).step
      (fun w e => AltersUnlocked w e ∧ LooksUndisturbed w e) (World.start twoTables [])
      (lookSchedule "a" ++ addColumnSchedule "b") := by
    decide +kernel
  have hstate : ∃ w ∈ runSchedule twoTables (lookSchedule "a" ++ addColumnSchedule "b"),
      (World.next w 1).bind Operation.reads = some "a" ∧
      (w.shared.store.tables.lookup "a").map Table.rows = some [[.int 7]] := by
    decide +kernel
  obtain ⟨w, hw, hreads, ht⟩ := hstate
  obtain ⟨o, hnext, ho⟩ := Option.bind_eq_some_iff.mp hreads
  obtain ⟨t, ht, hrows⟩ := Option.map_eq_some_iff.mp ht
  refine ⟨w, hw, hreads, hrows ▸ ?_⟩
  exact (rows_fit_schema twoTables_wf twoTables_ranged (hallowed.reach hw)).1 o "a" t hnext ho ht

def twoColumns : Store :=
  Store.empty.setTable "t"
    { Table.new [⟨"x", .int, true, false⟩, ⟨"y", .int, true, false⟩] none with rows := [[.int 7, .int 8]] }

def dropColumnSchedule (table column : String) : List MachineEvent :=
  .start 2 (.execute (.alterTable table (.dropColumn column))) ::
    steps 2 2 ++ logOne ++ steps 2 2 ++ [.finish 2]

/-- A column is dropped between the look and the scan: the `SELECT` finds a row that is too
short for the schema and panics. -/
theorem select_panics_after_drop :
    ∃ w ∈ runSchedule twoColumns (lookSchedule "t" ++ dropColumnSchedule "t" "y"),
      (World.next w 1).bind Operation.reads = some "t" ∧
      ((w.threads 1).state.resolved.map fun p => p.2.columns.length) = some 2 ∧
      (w.shared.store.tables.lookup "t").map Table.rows = some [[.int 7]] ∧
      ∃ w' ∈ (steps 1 2).foldlM (machine plainExecutor .always).step w,
        World.result w' 1 = some .panic := by
  decide +kernel

end

end MysqlRust
