import MysqlRust.Server.Operations

/-! # What a statement sees of other transactions

A `COMMIT` adds its rows to all its tables in one step, but a `SELECT` reads its tables one
after the other, each in one state of the database.
-/
namespace MysqlRust

open List Option

section
variable {w : World} {i : Nat}

def World.next (w : World) (i : Nat) : Option Operation :=
  match (w.threads i).task with
  | some (.op o _) => some o
  | _ => none

def World.result (w : World) (i : Nat) : Option (Result QueryResult) :=
  match (w.threads i).task with
  | some (.done r) => some r
  | _ => none

def Operation.changesSchemas : Operation → Bool
  | .apply c => c.creates.isSome || c.alters.isSome
  | _ => false

def NoSchemaChange (w : World) : MachineEvent → Prop
  | .perform i _ => (w.next i).any Operation.changesSchemas = false
  | _ => True

instance (w : World) (e : MachineEvent) : Decidable (NoSchemaChange w e) := by
  unfold NoSchemaChange
  split <;> infer_instance

theorem next_eq {o : Operation} {k : Outcome Error o.Resp → Program QueryResult}
    (h : (w.threads i).task = some (.op o k)) : w.next i = some o := by
  rw [World.next, h]

theorem result_eq {r : Result QueryResult} (h : w.result i = some r) :
    (w.threads i).task = some (.done r) := by
  unfold World.result at h
  split at h
  · rename_i r' htask
    cases h
    exact htask
  · cases h

theorem NoSchemaChange.apply {choice : Choice} {c : Call} (h : NoSchemaChange w (.perform i choice))
    (hnext : w.next i = some (.apply c)) : c.creates = none ∧ c.alters = none := by
  simpa [NoSchemaChange, hnext, Operation.changesSchemas] using h

/-- The tables of a `FROM` clause in the order in which they are read. -/
def FromClause.tables (clause : FromClause) : List String :=
  clause.table.name :: clause.joins.map fun join => join.table.name

/-- The tables an operation of a `SELECT` reads; other operations no `SELECT` performs. -/
def Operation.looks : Operation → Option (List String)
  | .scan table | .scanFiltered table _ | .lookupByPrimaryKey table _ => some [table]
  | .tableSchema _ | .pendingRows _ => some []
  | _ => none

/-- A back end whose calls read their own table once. -/
structure Storage.ReadsOnce (storage : Storage Program) : Prop where
  tableSchema : ∀ table, (storage.tableSchema table).Spells Operation.looks []
  scan : ∀ table, (storage.scan table).Spells Operation.looks [table]
  scanFiltered : ∀ table filter, (storage.scanFiltered table filter).Spells Operation.looks [table]
  lookupByPrimaryKey : ∀ table key,
    (storage.lookupByPrimaryKey table key).Spells Operation.looks [table]

theorem engine_readsOnce : engine.ReadsOnce where
  tableSchema _ := .perform rfl
  scan _ := .perform rfl
  scanFiltered _ _ := .perform rfl
  lookupByPrimaryKey _ _ := .perform rfl

theorem pendingRows_spells (table : String) :
    (perform (.pendingRows table)).Spells Operation.looks [] := .perform rfl

theorem overlay_readsOnce : overlay.ReadsOnce where
  tableSchema := engine_readsOnce.tableSchema
  scan table := by
    refine (engine_readsOnce.scan table).before fun rows => ?_
    exact (pendingRows_spells table).after fun _ => .done
  scanFiltered table filter := by
    refine (engine_readsOnce.scanFiltered table filter).before fun rows => ?_
    refine (pendingRows_spells table).after fun pending => ?_
    exact Prog.Spells.after .done fun _ => .done
  lookupByPrimaryKey table key := by
    refine (engine_readsOnce.lookupByPrimaryKey table key).before fun committed => ?_
    cases committed with
    | some row => exact .done
    | none =>
      refine (engine_readsOnce.tableSchema table).after fun schema => ?_
      cases TableSchema.keyIndex schema with
      | none => exact .done
      | some pkIdx => exact (pendingRows_spells table).after fun _ => .done

variable {storage : Storage Program}
variable {query : Select} {clause : FromClause}

theorem scanAndFilter_spells (h : storage.ReadsOnce) (table qualifier : String)
    (schema : TableSchema) (selection : Option Condition) :
    (scanAndFilter storage table qualifier schema selection).Spells Operation.looks [table] := by
  cases selection with
  | none => exact h.scan table
  | some cond =>
    refine Prog.Spells.after .done fun colIdx => ?_
    refine Prog.Spells.after .done fun column => ?_
    refine Prog.Spells.after .done fun expected => ?_
    split
    · exact (h.lookupByPrimaryKey table expected).before fun _ => .done
    · exact h.scanFiltered table _

theorem joinTable_spells (h : storage.ReadsOnce) (acc : Scope × List Row) (join : JoinClause) :
    (joinTable storage acc join).Spells Operation.looks [join.table.name] := by
  refine (h.tableSchema _).after fun schema => ?_
  refine Prog.Spells.after .done fun columns => ?_
  refine (h.scan join.table.name).before fun newRows => ?_
  exact Prog.Spells.after .done fun _ => .done

theorem resolveFrom_spells (h : storage.ReadsOnce) (clause : FromClause)
    (selection : Option Condition) :
    (resolveFrom storage clause selection).Spells Operation.looks clause.tables := by
  unfold resolveFrom
  split
  · rename_i hjoins
    rw [FromClause.tables, hjoins]
    refine (h.tableSchema _).after fun schema => ?_
    exact (scanAndFilter_spells h _ _ schema selection).before fun rows => .done
  · have hresolve : (resolveJoins storage clause).Spells Operation.looks clause.tables := by
      refine (h.tableSchema _).after fun schema => (h.scan clause.table.name).bind fun rows => ?_
      exact Prog.Spells.foldlM (joinTable_spells h) clause.joins _
    exact hresolve.before fun p => Prog.Spells.after .done fun _ => .done

/-- A `SELECT` reads every table of its `FROM` clause once, in order. -/
theorem executeSelect_spells (ex : Executor) (h : storage.ReadsOnce)
    (hfrom : query.fromClause = some clause) :
    (executeSelect ex storage query).Spells Operation.looks clause.tables := by
  unfold executeSelect
  rw [hfrom]
  refine (resolveFrom_spells h clause query.selection).before fun p => ?_
  dsimp only
  split
  · exact .done
  · exact .done

variable {ex : Executor} {store : Store} {choice : Choice} {s s' : Db} {l l' : Conn} {o : Operation}
  {r : Outcome Error o.Resp} {rows : List (String × Row)}

/-- The answer of the first of the states; the others are left. -/
def answerFrom {α : Type} (read : Store → Result α) : List Store → Result α × List Store
  | [] => (.panic, [])
  | state :: states => (read state, states)

/-- The answers a `SELECT` gets when its reads are made in the given states, one after the
other. The schemas are those of `store`, the pending rows those of the open transaction. -/
def Operation.replay (store : Store) (tx : Option Transaction) :
    (o : Operation) → List Store → Outcome Error o.Resp × List Store
  | .tableSchema table, states => (store.tableSchema table, states)
  | .pendingRows table, states => (.ok ((tx.getD .new).rows table), states)
  | .scan table, states => answerFrom (·.scan table) states
  | .scanFiltered table filter, states => answerFrom (·.scanFiltered table filter) states
  | .lookupByPrimaryKey table key, states => answerFrom (·.lookupByPrimaryKey table key) states
  | _, states => (.panic, states)

def Conn.select (ex : Executor) (l : Conn) (query : Select) : Program QueryResult :=
  executeSelect ex (if l.tx.isSome then overlay else engine) query

theorem Store.Appends.tableSchema (h : store.Appends s.store rows) (table : String) :
    s.store.tableSchema table = store.tableSchema table := by
  unfold Store.tableSchema
  cases ht : store.tables.lookup table with
  | none => rw [h.absent table ht]
  | some t =>
    obtain ⟨t', ht', hschema, -⟩ := h.there table t ht
    rw [ht']
    exact congrArg Outcome.ok hschema

/-- What an operation of a `SELECT` answers is its replay in the state it has met. -/
theorem Operation.replay_of_run {part : List String} (hlooks : o.looks = some part)
    (htables : store.Appends s.store rows) (hrun : o.run i choice s l = some (r, s', l')) :
    l'.tx = l.tx ∧ ∃ reads : List TableRead, l'.reads = l.reads ++ reads ∧
      reads.map TableRead.table = part ∧
      ∀ states, o.replay store l.tx (reads.map TableRead.state ++ states) = (r, states) := by
  cases o with
  | tableSchema table =>
    cases hlooks
    have hreplay := htables.tableSchema table
    simp only [Operation.run] at hrun
    split at hrun
    all_goals
      rename_i hschema
      cases hrun
      refine ⟨rfl, [], (append_nil _).symm, rfl, fun states => ?_⟩
      rw [map_nil, nil_append, Operation.replay, ← hreplay, hschema]
      rfl
  | pendingRows table =>
    cases hlooks
    cases hrun
    exact ⟨rfl, [], (append_nil _).symm, rfl, fun _ => rfl⟩
  | scan table | scanFiltered table filter | lookupByPrimaryKey table key =>
    cases hlooks
    cases hrun
    exact ⟨rfl, [⟨s.batches.length, table, s.store⟩], rfl, rfl, fun _ => rfl⟩
  | _ => cases hlooks

/-- What is left of a `SELECT`: the rest of its program, which answers in any further states as
the whole does in those met so far and these; or, after a panic, the release of the locks. -/
inductive Conn.Selects (ex : Executor) (store : Store) (l : Conn) (query : Select)
    (clause : FromClause) : Program QueryResult → Prop
  | running {x : Program QueryResult} {rest : List String}
      (replay : ∀ states, (l.select ex query).run (Operation.replay store l.tx)
        (l.reads.map TableRead.state ++ states) = x.run (Operation.replay store l.tx) states)
      (spells : x.Spells Operation.looks rest)
      (tables : l.reads.map TableRead.table ++ rest = clause.tables) :
      Selects ex store l query clause (unwind x)
  | dropping (locks : List String) {rest : List String}
      (tables : l.reads.map TableRead.table ++ rest = clause.tables) :
      Selects ex store l query clause (do releaseAll .abandoned locks; .done .panic)

theorem Conn.Selects.perform {k : Outcome Error o.Resp → Program QueryResult}
    (h : l.Selects ex store query clause (.op o k)) (htables : store.Appends s.store rows)
    (hrun : o.run i choice s l = some (r, s', l')) : l'.Selects ex store query clause (k r) := by
  generalize hx : Prog.op o k = task at h
  cases h with
  | @running x rest replay spells tables =>
    cases x with
    | done r' =>
      cases r' with
      | ok a => cases hx
      | err e => cases hx
      | panic =>
        cases hx
        simp only [Operation.run] at hrun
        split at hrun
        · split at hrun
          · cases hrun
            exact .dropping _ tables
          · cases hrun
        · cases hrun
          exact .dropping [] tables
    | op o' k' =>
      cases hx
      obtain ⟨part, rest, hlooks, rfl, hspells⟩ := spells
      obtain ⟨htx, reads, hreads, hpart, hanswer⟩ := Operation.replay_of_run hlooks htables hrun
      refine .running (fun states => ?_) (hspells r) ?_
      · rw [Conn.select, htx, hreads, map_append, append_assoc]
        rw [← Conn.select, replay, Prog.run, hanswer]
      · rw [hreads, map_append, hpart, append_assoc]
        exact tables
  | dropping locks tables =>
    cases locks with
    | nil => cases hx
    | cons table locks =>
      cases hx
      cases hrun
      exact .dropping locks tables

/-- What the answer of a `SELECT` is: of what it has read, the answer of its program. -/
theorem Conn.Selects.result {r : Result QueryResult} (h : l.Selects ex store query clause (.done r))
    (hr : r ≠ .panic) : (r.isOk = true → l.reads.map TableRead.table = clause.tables) ∧
      (l.select ex query).run (Operation.replay store l.tx) (l.reads.map TableRead.state) =
        (r, []) := by
  generalize hx : Prog.done r = task at h
  cases h with
  | @running x rest replay spells tables =>
    cases x with
    | done r' =>
      have heq : r' = r := by
        cases r' with
        | ok a =>
          cases hx
          rfl
        | err e =>
          cases hx
          rfl
        | panic => cases hx
      subst heq
      have hreplay := replay []
      rw [append_nil] at hreplay
      refine ⟨fun hok => ?_, hreplay⟩
      rw [← tables, spells hok, append_nil]
    | op o k => cases hx
  | dropping locks tables =>
    cases locks with
    | nil =>
      cases hx
      exact absurd rfl hr
    | cons table locks => cases hx

theorem Conn.Selects.tables {task : Program QueryResult} (h : l.Selects ex store query clause task) :
    ∃ rest, l.reads.map TableRead.table ++ rest = clause.tables := by
  cases h with
  | running _ _ tables => exact ⟨_, tables⟩
  | dropping _ tables => exact ⟨_, tables⟩

variable {policy : SyncPolicy} {w' : World}
variable {batches : List (List (String × Row))} {task : Option (Program QueryResult)}
  {k : Outcome Error o.Resp → Program QueryResult}

/-- The table was read in the state of the database after some number of batches: every table
has all rows of the batches up to there and none of the later ones. -/
structure TableRead.Sees (store : Store) (batches : List (List (String × Row)))
    (r : TableRead) : Prop where
  position : r.position ≤ batches.length
  state : store.Appends r.state (batches.take r.position).flatten

theorem TableRead.Sees.append {r : TableRead} (h : r.Sees store batches)
    (batch : List (String × Row)) : r.Sees store (batches ++ [batch]) where
  position := by
    rw [length_append]
    exact Nat.le_add_right_of_le h.position
  state := by
    rw [take_append_of_le_length h.position]
    exact h.state

/-- The reads of a connection are made in states of the database, in the order of these
states; a `SELECT` is what its reads say. -/
structure Conn.ReadsStates (ex : Executor) (store : Store) (batches : List (List (String × Row)))
    (l : Conn) (task : Option (Program QueryResult)) : Prop where
  sees : ∀ r ∈ l.reads, r.Sees store batches
  ordered : l.reads.Pairwise fun r r' => r.position ≤ r'.position
  idle : task = none → l.current = none
  selects : ∀ x query clause, task = some x → l.current = some (.select query) →
    query.fromClause = some clause → l.Selects ex store query clause x

structure World.ReadsStates (ex : Executor) (store : Store) (w : World) : Prop where
  tables : store.Appends w.shared.store w.shared.batches.flatten
  conns : ∀ i, (w.threads i).state.ReadsStates ex store w.shared.batches (w.threads i).task

theorem Conn.ReadsStates.append (h : l.ReadsStates ex store batches task)
    (batch : List (String × Row)) :
    l.ReadsStates ex store (batches ++ [batch]) task :=
  { h with sees := fun r hr => (h.sees r hr).append batch }

theorem World.ReadsStates.set (h : w.ReadsStates ex store) (i : Nat)
    (hsame : w.shared.store.Appends s.store []) (hbatches : s.batches = w.shared.batches)
    (hconn : l.ReadsStates ex store w.shared.batches task) :
    World.ReadsStates ex store (w.set i s l task) where
  tables := by
    have happend := h.tables.trans hsame
    rw [append_nil] at happend
    simpa [hbatches] using happend
  conns j := by
    rw [Threads.World.set_shared, hbatches]
    by_cases hj : j = i
    · subst hj
      rwa [Threads.World.set_same]
    · rw [Threads.World.set_of_ne w i s l task hj]
      exact h.conns j

theorem start_readsStates (h : w.ReadsStates ex store) (i : Nat) (command : Command) :
    World.ReadsStates ex store (w.set i w.shared ((w.threads i).state.begin command)
      (some (command.program ex (w.threads i).state))) := by
  refine h.set i (.of_tables rfl) rfl
    ⟨by simp [Conn.begin], by simp [Conn.begin], fun hnone => absurd hnone (some_ne_none _), ?_⟩
  intro x query clause hx hcurrent hfrom
  cases hx
  cases command with
  | disconnect => cases hcurrent
  | execute st =>
    cases hcurrent
    refine .running (x := ((w.threads i).state.begin _).select ex query) (fun _ => rfl) ?_ rfl
    unfold Conn.select
    split
    · exact executeSelect_spells ex overlay_readsOnce hfrom
    · exact executeSelect_spells ex engine_readsOnce hfrom

theorem Conn.ReadsStates.perform {i : Nat} {choice : Choice} {r : Outcome Error o.Resp}
    (h : l.ReadsStates ex store s.batches (some (.op o k)))
    (htables : store.Appends s.store s.batches.flatten)
    (hrun : o.run i choice s l = some (r, s', l')) (hcurrent : l'.current = l.current)
    (hreads : l.Reads s l') : l'.ReadsStates ex store s.batches (some (k r)) := by
  have hselects : ∀ x query clause, some (k r) = some x → l'.current = some (.select query) →
      query.fromClause = some clause → l'.Selects ex store query clause x := by
    intro x query clause hx hselect hfrom
    cases hx
    exact (h.selects _ query clause rfl (hcurrent ▸ hselect) hfrom).perform htables hrun
  have hidle : some (k r) = none → l'.current = none := fun hnone =>
    absurd hnone (some_ne_none _)
  cases hreads with
  | same hreads => exact ⟨hreads ▸ h.sees, hreads ▸ h.ordered, hidle, hselects⟩
  | @read table hreads =>
    refine ⟨?_, ?_, hidle, hselects⟩
    · rw [hreads]
      refine forall_mem_append.mpr ⟨h.sees, forall_mem_singleton.mpr ⟨Nat.le_refl _, ?_⟩⟩
      rwa [take_length]
    · rw [hreads, pairwise_append]
      refine ⟨h.ordered, pairwise_singleton _ _, fun r₁ hr₁ r₂ hr₂ => ?_⟩
      cases mem_singleton.mp hr₂
      exact (h.sees r₁ hr₁).position

theorem perform_readsStates {i : Nat} {choice : Choice} {r : Outcome Error o.Resp}
    (h : w.ReadsStates ex store) (hguard : NoSchemaChange w (.perform i choice))
    (htask : (w.threads i).task = some (.op o k))
    (hrun : o.run i choice w.shared (w.threads i).state = some (r, s', l')) :
    World.ReadsStates ex store (w.set i s' l' (some (k r))) := by
  have hconn := h.conns i
  rw [htask] at hconn
  have heffect := Operation.run_effect hrun
  have hstep : l'.current = (w.threads i).state.current → (w.threads i).state.Reads w.shared l' →
      l'.ReadsStates ex store w.shared.batches (some (k r)) :=
    hconn.perform h.tables hrun
  cases heffect with
  | quiet same _ current _ _ reads => exact h.set i same.appends rfl (hstep current reads)
  | locked _ current _ _ reads => exact h.set i (.of_tables rfl) rfl (hstep current (.same reads))
  | unlocked | submitted | received | refused =>
    exact h.set i (.of_tables rfl) rfl (hstep rfl (.same rfl))
  | @applied c store' hstore =>
    obtain ⟨hcreates, halters⟩ := hguard.apply (next_eq htask)
    constructor
    · simpa using h.tables.trans (apply_appends hcreates halters hstore)
    · intro j
      by_cases hj : j = i
      · subst hj
        rw [Threads.World.set_same]
        exact (hstep rfl (.same rfl)).append c.inserts
      · rw [Threads.World.set_of_ne w i _ _ _ hj]
        exact (h.conns j).append c.inserts

theorem finish_readsStates (h : w.ReadsStates ex store) (i : Nat) (r : Outcome Error QueryResult) :
    World.ReadsStates ex store
      (w.set i (w.shared.lookAway i) ((w.threads i).state.settle r) none) := by
  obtain ⟨hsees, hordered, -, -⟩ := h.conns i
  refine h.set i (.of_tables rfl) rfl ⟨hsees, hordered, fun _ => rfl, ?_⟩
  intro x query clause hx
  cases hx

/-- Every step keeps the reads of each statement tied to the states they were made in. -/
theorem step_readsStates {e : MachineEvent} (h : w.ReadsStates ex store)
    (hguard : NoSchemaChange w e) (hstep : (machine ex policy).step w e = some w') :
    w'.ReadsStates ex store := by
  cases Threads.step_steps hstep with
  | start _ => exact start_readsStates h _ _
  | perform htask hrun => exact perform_readsStates h hguard htask hrun
  | @finish i r _ => exact finish_readsStates h i r
  | @outside e s' hwrites =>
    have hkept : s'.store = w.shared.store ∧ s'.batches = w.shared.batches := by
      cases Db.writerStep_writes hwrites <;> exact ⟨rfl, rfl⟩
    constructor
    · rw [hkept.1, hkept.2]
      exact h.tables
    · rw [hkept.2]
      exact h.conns

theorem readsStates_start {file : List UInt8} : (World.start store file).ReadsStates ex store :=
  ⟨(Store.Same.refl store).appends, fun _ => ⟨nofun, .nil, fun _ => rfl, fun _ _ _ hsome =>
    absurd hsome.symm (some_ne_none _)⟩⟩

theorem readsStates_of_run {file : List UInt8}
    (hrun : Runs.Reach (machine ex policy).step NoSchemaChange (World.start store file) w) :
    w.ReadsStates ex store :=
  Runs.Reach.invariant hrun readsStates_start fun _ _ _ h hguard hstep =>
    step_readsStates h hguard hstep

/-- A statement makes each of its reads in one state of the database, no later read in an
earlier state. A `SELECT` reads the tables of its `FROM` clause once each, in order, and its answer
is what its program computes when its reads are answered by these states. -/
theorem reads_committed_states (ex : Executor) (policy : SyncPolicy) (store : Store)
    (file : List UInt8)
    (hrun : Runs.Reach (machine ex policy).step NoSchemaChange (World.start store file) w)
    (i : Nat) :
    (∀ r ∈ (w.threads i).state.reads, r.Sees store w.shared.batches) ∧
      (w.threads i).state.reads.Pairwise (fun r r' => r.position ≤ r'.position) ∧
      ∀ query clause, (w.threads i).state.current = some (.select query) →
        query.fromClause = some clause →
        (∃ rest, (w.threads i).state.reads.map TableRead.table ++ rest = clause.tables) ∧
        ∀ r, w.result i = some r → r ≠ .panic →
          (r.isOk = true → (w.threads i).state.reads.map TableRead.table = clause.tables) ∧
          ((w.threads i).state.select ex query).run
            (Operation.replay store (w.threads i).state.tx)
            ((w.threads i).state.reads.map TableRead.state) = (r, []) := by
  have hconn := (readsStates_of_run hrun).conns i
  refine ⟨hconn.sees, hconn.ordered, fun query clause hselect hfrom => ?_⟩
  cases htask : (w.threads i).task with
  | none =>
    rw [hconn.idle htask] at hselect
    cases hselect
  | some x =>
    have hselects := hconn.selects x query clause htask hselect hfrom
    refine ⟨hselects.tables, fun r hresult hr => ?_⟩
    have hdone := (result_eq hresult).symm.trans htask
    cases hdone
    exact hselects.result hr

end

def twoTables : Store :=
  (Store.empty.setTable "a" { Table.new [⟨"x", .int, true, false⟩] none with rows := [[.int 7]] }).setTable
    "b" (Table.new [⟨"y", .int, true, false⟩] none)

def insertInto (table : String) (n : Int64) : Command :=
  .execute (.insert ⟨table, none, [[.integer n]]⟩)

def joinClause : FromClause :=
  ⟨⟨"a", none⟩, [⟨.left, ⟨"b", none⟩, ⟨some "a", "x"⟩, ⟨some "b", "y"⟩⟩]⟩

def joinSelect : Select := ⟨[.wildcard], some joinClause, none, [], [], none, none⟩

def joinQuery : Command := .execute (.select joinSelect)

def TableRead.rows (r : TableRead) : Option (List Row) :=
  (r.state.tables.lookup r.table).map Table.rows

def steps (i n : Nat) : List MachineEvent := List.replicate n (.perform i {})

def joinSchedule : List MachineEvent :=
  .start 1 (.execute .begin) :: steps 1 2 ++ [.finish 1] ++
  .start 1 (insertInto "a" 8) :: steps 1 4 ++ [.finish 1] ++
  .start 1 (insertInto "b" 7) :: steps 1 4 ++ [.finish 1] ++
  [.start 1 (.execute .commit), .perform 1 ⟨false, ["a", "b"]⟩] ++ steps 1 2 ++
  [.outside (.drain 1), .outside (.write .done), .outside .ack] ++ steps 1 1 ++
  -- the join scans the first table, then the call of the `COMMIT` is applied
  .start 2 joinQuery :: steps 2 2 ++ steps 1 1 ++ steps 2 2

def joinState : Option World :=
  joinSchedule.foldlM (machine plainExecutor .always).step (World.start twoTables [])

theorem joinSchedule_allowed : Runs.Allowed (machine plainExecutor .always).step NoSchemaChange
    (World.start twoTables []) joinSchedule := by
  decide +kernel

theorem reads_committed_states_join : ∃ w : World, joinState = some w ∧
      (w.threads 2).state.reads.map TableRead.table = ["a", "b"] ∧
      (∀ r ∈ (w.threads 2).state.reads, r.Sees twoTables w.shared.batches) ∧
      ((w.threads 2).state.select plainExecutor joinSelect).run
        (Operation.replay twoTables (w.threads 2).state.tx)
        ((w.threads 2).state.reads.map TableRead.state) =
          (.ok ⟨[⟨"x", .int, true, false⟩, ⟨"y", .int, true, false⟩], [[.int 7, .int 7]], 0⟩, []) := by
  have hstate : ∃ w ∈ joinState, World.result w 2 =
      some (.ok ⟨[⟨"x", .int, true, false⟩, ⟨"y", .int, true, false⟩], [[.int 7, .int 7]], 0⟩) := by
    decide +kernel
  have hcurrent : joinState.map (fun w => (w.threads 2).state.current) =
      some (some (.select joinSelect)) := by
    rfl
  obtain ⟨w, hw, hresult⟩ := hstate
  rw [hw] at hcurrent
  obtain ⟨hsees, -, hselect⟩ := reads_committed_states plainExecutor .always twoTables []
    (joinSchedule_allowed.reach hw) 2
  obtain ⟨-, hanswer⟩ := hselect joinSelect joinClause (some.inj hcurrent) rfl
  obtain ⟨htables, hreplay⟩ := hanswer _ hresult nofun
  exact ⟨w, hw, htables rfl, hsees, hreplay⟩

/-- The join returns the row that the transaction added to its second table next to the
first table as it was before the transaction. -/
theorem join_sees_half_a_transaction :
    ∃ w ∈ joinState, w.shared.batches = [[("a", [.int 8]), ("b", [.int 7])]] ∧
      (w.threads 2).state.reads.map TableRead.position = [0, 1] ∧
      (w.threads 2).state.reads.map TableRead.rows = [some [[.int 7]], some [[.int 7]]] ∧
      World.result w 2 = some (.ok ⟨[⟨"x", .int, true, false⟩, ⟨"y", .int, true, false⟩],
        [[.int 7, .int 7]], 0⟩) := by
  decide +kernel

end MysqlRust
