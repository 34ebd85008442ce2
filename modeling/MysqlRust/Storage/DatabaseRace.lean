import MysqlRust.Storage.FailedWrites

/-! # Concurrent `CREATE DATABASE` and `DROP DATABASE`

Neither statement takes a lock, so their records can reach the log in one order and memory in
another. A create and a drop of one name do not commute.
-/
namespace MysqlRust

open Outcome List

/-- Only database calls run, a failed batch leaves less than its first record, and a call is
applied when no opposed call was logged before it and still waits. -/
def DatabasesInTurn (policy : SyncPolicy) (s : Sys) : Action → Prop
  | .check c => c.isDatabase = true
  | .write batch io => FailsClean policy s (.write batch io)
  | .apply c => ∀ d ∈ s.queue.takeWhile (· ≠ c), ¬ Opposed d c
  | .nextAutoIncrement _ => True

section OnDatabases
variable {c d : Call} {s s' : Store}

/-- A call taken from the middle of the queue has the effect it would have had in turn. -/
theorem foldl_onDatabases_erase {queue : List Call} (hc : c ∈ queue)
    (hclear : ∀ d ∈ queue.takeWhile (· ≠ c), ¬ Opposed d c) (databases : Finset String) :
    (queue.erase c).foldl Call.onDatabases (c.onDatabases databases) =
      queue.foldl Call.onDatabases databases := by
  have hcomm := Lists.foldlM_cons_erase (m := Id) (f := fun s d => pure (Call.onDatabases s d)) hc
    fun d hd s => (onDatabases_comm (hclear d hd) s).symm
  rw [foldl_eq_foldlM, foldl_eq_foldlM]
  exact congrArg Id.run (hcomm databases)

theorem replay_databaseCalls {calls : List Call} (hcalls : ∀ c ∈ calls, c.isDatabase = true)
    (s : Store) : ∃ r, (calls.map Call.entry).foldlM applyEntry s = .ok r ∧
      r.databases = calls.foldl Call.onDatabases s.databases := by
  induction calls generalizing s with
  | nil => exact ⟨s, rfl, rfl⟩
  | cons c calls ih =>
    obtain ⟨r, hr, hdatabases⟩ := ih (fun d hd => hcalls d (mem_cons_of_mem c hd))
      { s with databases := c.onDatabases s.databases }
    refine ⟨r, ?_, hdatabases⟩
    rw [map_cons, foldlM_cons, applyEntry_database (hcalls c mem_cons_self), ok_bind, hr]

theorem apply_database (hc : c.isDatabase = true) :
    (∀ s', apply s c = .ok s' → s'.databases = c.onDatabases s.databases) ∧
      (∀ e, apply s c = .err e → s.databases = c.onDatabases s.databases) := by
  have hentry := applyEntry_entry s c fun name columns primaryKey heq => by
    rw [heq] at hc
    cases hc
  rw [applyEntry_database hc] at hentry
  constructor
  · intro s' hs'
    rw [hs'] at hentry
    cases hentry
    rfl
  · intro e he
    rw [he] at hentry
    exact congrArg Store.databases (Outcome.ok.inj hentry).symm

theorem nextAutoIncrement_databases {table : String} {v : Int64}
    (h : nextAutoIncrement s table = .ok (s', v)) : s'.databases = s.databases := by
  obtain ⟨t, -, h⟩ := bind_eq_ok.mp h
  obtain ⟨⟨idx, next⟩, -, h⟩ := bind_eq_ok.mp h
  cases h
  rfl

end OnDatabases

section Invariant
variable {policy : SyncPolicy} {s s' : Sys}

structure Sys.Registered (s : Sys) : Prop where
  replayed : ∃ log r, Recovers s.file log ∧ log.foldlM applyEntry Store.empty = .ok r ∧
    r.databases = s.queue.foldl Call.onDatabases s.store.databases
  database : ∀ c ∈ s.checked ++ s.queue, c.isDatabase = true

theorem Sys.Registered.write {batch : List Call} {io : Io} (h : s.Registered)
    (hg : FailsClean policy s (.write batch io))
    (hstep : s.step policy (.write batch io) = some s') : s'.Registered := by
  obtain ⟨log, r, hrec, hfold, hnames⟩ := h.replayed
  have hbatch : ∀ c ∈ batch, c.isDatabase = true := fun c hc =>
    h.database c (mem_append_left _ ((step_write hstep).1.subset hc))
  have hdatabase : ∀ c ∈ s'.checked ++ s'.queue, c.isDatabase = true := fun c hc =>
    (step_calls hstep hc).elim (h.database c) nofun
  obtain ⟨hstore, ⟨hqueue, -, hrec'⟩ | ⟨e, hqueue, -, hrec'⟩⟩ :=
    step_write_recovers hrec hg hstep
  · obtain ⟨r', hr', hnames'⟩ := replay_databaseCalls hbatch r
    refine ⟨⟨log ++ batch.map Call.entry, r', hrec', ?_, ?_⟩, hdatabase⟩
    · rw [foldlM_append, hfold, ok_bind, hr']
    · rw [hnames', hnames, hqueue, hstore, foldl_append]
  · exact ⟨⟨log, r, hrec', hfold, by rw [hnames, hqueue, hstore]⟩, hdatabase⟩

theorem Sys.Registered.apply {c : Call} (h : s.Registered)
    (hg : ∀ d ∈ s.queue.takeWhile (· ≠ c), ¬ Opposed d c)
    (hstep : s.step policy (.apply c) = some s') : s'.Registered := by
  obtain ⟨log, r, hrec, hfold, hnames⟩ := h.replayed
  obtain ⟨hc, hcases⟩ := step_apply hstep
  obtain ⟨hok, herr⟩ := apply_database (s := s.store)
    (h.database c (mem_append_right _ hc))
  have hdatabase : ∀ d ∈ s'.checked ++ s'.queue, d.isDatabase = true := fun d hd =>
    (step_calls hstep hd).elim (h.database d) nofun
  obtain ⟨store, hstore, rfl⟩ | ⟨e, he, rfl⟩ := hcases
  · refine ⟨⟨log, r, hrec, hfold, ?_⟩, hdatabase⟩
    rw [hnames, hok store hstore, foldl_onDatabases_erase hc hg]
  · refine ⟨⟨log, r, hrec, hfold, ?_⟩, hdatabase⟩
    rw [hnames, herr e he, foldl_onDatabases_erase hc hg, ← herr e he]

theorem step_registered (a : Action) (h : s.Registered) (hg : DatabasesInTurn policy s a)
    (hstep : s.step policy a = some s') : s'.Registered := by
  cases a with
  | check c =>
    have hdatabase : ∀ d ∈ s'.checked ++ s'.queue, d.isDatabase = true := fun d hd =>
      (step_calls hstep hd).elim (h.database d) fun heq => Action.check.inj heq ▸ hg
    obtain ⟨-, ⟨-, rfl⟩ | ⟨-, rfl⟩ | ⟨e, rfl⟩⟩ := step_check hstep
    · exact ⟨h.replayed, hdatabase⟩
    · exact ⟨h.replayed, hdatabase⟩
    · exact ⟨h.replayed, hdatabase⟩
  | write batch io => exact h.write hg hstep
  | apply c => exact h.apply hg hstep
  | nextAutoIncrement table =>
    rcases step_nextAutoIncrement hstep with rfl | ⟨store, v, hn, rfl⟩
    · exact h
    · obtain ⟨log, r, hrec, hfold, hnames⟩ := h.replayed
      refine ⟨⟨log, r, hrec, hfold, ?_⟩, h.database⟩
      rw [hnames, (nextAutoIncrement_databases hn)]

end Invariant

/-- In every state of a run the log opens, and when no acknowledged call waits to be applied
it opens to the registered names. -/
theorem open_databases (policy : SyncPolicy) {content : Option (List UInt8)} {st : Store}
    {file : List UInt8} (hopen : Log.open applyEntry Store.empty content = .ok (st, file))
    {s : Sys} (hrun : Runs.Reach (Sys.step policy) (DatabasesInTurn policy) (.start st file) s) :
    ∃ r file', Log.open applyEntry Store.empty (some s.file) = .ok (r, file') ∧
      (s.queue = [] → r.databases = s.store.databases) := by
  obtain ⟨base, hbase, hst⟩ := open_recovers hopen
  have hstart : (Sys.start st file).Registered :=
    ⟨⟨base, st, hbase, hst, rfl⟩, by simp [Sys.start]⟩
  obtain ⟨⟨log, r, hrec, hfold, hnames⟩, -⟩ :=
    hrun.invariant hstart fun _ a _ h hg hstep => step_registered a h hg hstep
  obtain ⟨file', hfile'⟩ := hrec.open_eq applyEntry Store.empty
  refine ⟨r, file', by rw [hfile', hfold, ok_bind], ?_⟩
  intro hqueue
  rw [hnames, hqueue, foldl_nil]

def createA : Call := .createDatabase "a" false

def dropA : Call := .dropDatabase "a" true

def databasesSchedule : List Action :=
  [.check createA, .check dropA, .write [createA, dropA] .done, .apply createA, .apply dropA]

theorem open_databasesSchedule :
    ∃ s, databasesSchedule.foldlM (Sys.step .always) (.start Store.empty []) = some s ∧
      ∃ r file', Log.open applyEntry Store.empty (some s.file) = .ok (r, file') ∧
        (s.queue = [] → r.databases = s.store.databases) := by
  obtain ⟨s, hs⟩ : ∃ s, databasesSchedule.foldlM (Sys.step .always) (.start Store.empty []) =
      some s := ⟨_, rfl⟩
  have hallowed : Runs.Allowed (Sys.step .always) (DatabasesInTurn .always)
      (.start Store.empty []) databasesSchedule := by
    refine ⟨rfl, ?_⟩
    rintro s₁ ⟨⟩
    refine ⟨rfl, ?_⟩
    rintro s₂ ⟨⟩
    refine ⟨⟨by decide, .inr ⟨[], [], .nil, rfl⟩, fun h => absurd trivial h⟩, ?_⟩
    rintro s₃ ⟨⟩
    refine ⟨by simp [DatabasesInTurn, Sys.start, createA, dropA], ?_⟩
    rintro s₄ ⟨⟩
    refine ⟨by simp [DatabasesInTurn, Sys.start, createA, dropA], ?_⟩
    rintro s₅ ⟨⟩
    trivial
  have hopen : Log.open applyEntry Store.empty none = .ok (Store.empty, []) := rfl
  exact ⟨s, hs, open_databases .always hopen (hallowed.reach hs)⟩

def swappedSchedule : List Action :=
  [.check createA, .check dropA, .write [createA, dropA] .done, .apply dropA, .apply createA]

/-- Memory has the name, the log creates and then drops it. -/
theorem swappedSchedule_forgets_database :
    ∃ s, swappedSchedule.foldlM (Sys.step .always) (.start Store.empty []) = some s ∧
      s.Quiescent ∧ s.store.databases = {"a"} ∧
      ∃ r, Log.open applyEntry Store.empty (some s.file) = .ok (r, s.file) ∧ r.databases = ∅ := by
  have hopen : Log.open applyEntry Store.empty (some (logBytes [createA.entry, dropA.entry])) =
      .ok (Store.empty, logBytes [createA.entry, dropA.entry]) :=
    open_logBytes Store.empty (by decide)
  have hfile : Sys.file <$> swappedSchedule.foldlM (Sys.step .always) (.start Store.empty []) =
      some (logBytes [createA.entry, dropA.entry]) := by
    decide +kernel
  refine ⟨_, rfl, ⟨rfl, rfl⟩, by decide +kernel, Store.empty, ?_, rfl⟩
  rw [Option.some.inj hfile, hopen]

end MysqlRust
