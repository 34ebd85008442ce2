import MysqlRust.Query.Draws
import MysqlRust.Query.FailedInsert
import MysqlRust.Server.TableInvariants

/-! # Generated keys

A generated key is the next value of the counter, which is above every committed key. The
counter does not know the keys that are still on their way: those of earlier rows of the
same statement, and those pending in the transaction.
-/
namespace MysqlRust

open List Option

section
variable {next : Int64}

def generatesKey (table : String) (schema : TableSchema) (columns : Option (List String)) (i : Nat)
    (row : List Expr) : Bool :=
  (orderedExprs table schema columns row).toOption.any fun exprs =>
    ((exprs.zip schema.columns)[i]?).any drawn

def givenKey (table : String) (schema : TableSchema) (columns : Option (List String)) (i : Nat)
    (row : List Expr) : Option Value :=
  (orderedExprs table schema columns row).toOption.bind fun exprs =>
    ((exprs.zip schema.columns)[i]?).bind fun p =>
      if drawn p then none else (coerce p.1 p.2.columnType p.2.name).toOption

def Insert.givenKeys (rows : Insert) (schema : TableSchema) (i : Nat) : List Value :=
  rows.rows.filterMap (givenKey rows.table schema rows.columns i)

def Value.ahead (next : Int64) (n : Nat) : Value → Bool
  | .int v => next.toInt ≤ v.toInt && v.toInt < next.toInt + n
  | _ => false

def Server.pendingKeys (s : Server) (conn : Nat) (table : String) (i : Nat) : List Value :=
  match s.tx.lookup conn with
  | some tx => (tx.rows table).filterMap fun row => row[i]?
  | none => []

/-- The counter has room for the values an `INSERT` draws, and none of them is the key of a row
of the same statement or of one that waits in the same transaction. -/
def CountersGuarded (s : Server) : Event → Prop
  | .execute conn (.insert rows) _ _ =>
    ∀ t ∈ s.store.tables.lookup rows.table, ∀ p ∈ t.autoIncrement,
      p.2.toInt + rows.draws t.schema ≤ Int64.maxValue.toInt ∧
      (t.primaryKeyIndex = some p.1 →
        ∀ key ∈ rows.givenKeys t.schema p.1 ++ s.pendingKeys conn rows.table p.1,
          key.ahead p.2 (rows.draws t.schema) = false)
  | _ => True

theorem Value.ahead_of_lt {n l : Nat} (hroom : next.toInt + n ≤ Int64.maxValue.toInt) (hl : l < n) :
    (Value.int (next + Int64.ofNat l)).ahead next n = true := by
  have hadd : (next + Int64.ofNat l).toInt = next.toInt + l := toInt_add_ofNat (by omega)
  simp only [ahead, hadd, Bool.and_eq_true, decide_eq_true_eq]
  omega

theorem RowDraw.key {s : Store} {table : String} {t : Table} {i a k k' : Nat}
    {columns : Option (List String)} {row : List Expr} {values : Row} {key : Value}
    (ht : s.tables.lookup table = some t) (hauto : t.autoIncrement = some (a, next))
    (h : RowDraw s table t.schema columns k row values k') (hkey : values[i]? = some key) :
    (generatesKey table t.schema columns i row = true ∧
        ∃ l, k ≤ l ∧ l < k' ∧ key = .int (next + Int64.ofNat l)) ∨
      generatesKey table t.schema columns i row = false ∧
        givenKey table t.schema columns i row = some key := by
  obtain ⟨exprs, hexprs, hcells⟩ := h.cells
  obtain ⟨p, l, l', hp, hcell, hl, hl'⟩ :=
    hcells.getElem? (fun _ _ _ _ hdraw => CellDraw.le hdraw) hkey
  simp only [generatesKey, givenKey, hexprs, Outcome.toOption, any_some, bind_some, hp]
  cases hdrawn : drawn p with
  | true =>
    obtain ⟨u, j, n, hu, hn, hvalue⟩ := hcell.fromCounter hdrawn
    cases ht.symm.trans hu
    cases hauto.symm.trans hn
    have hmoved := hcell.moved
    rw [cellDraws, if_pos hdrawn] at hmoved
    exact .inl ⟨rfl, l, hl, by omega, hvalue⟩
  | false =>
    refine .inr ⟨rfl, ?_⟩
    rw [hcell.given hdrawn]
    rfl

variable {s s' : Server} {conn : Nat}

inductive Server.Moves (s : Server) : Event → Store → Prop
  | kept {e : Event} : Moves s e s.store
  | called {e : Event} {c : Call} {store : Store} (check : check s.store c = .ok true)
      (apply : apply s.store c = .ok store) : Moves s e store
  | inserted {conn : Nat} {append : Option Error} {visited : List String} {rows : Insert}
      {store : Store} (moves : rows.Moves s.store store) :
      Moves s (.execute conn (.insert rows) append visited) store

namespace Server

theorem commitTransaction_moves (append : Option Error) (visited : List String) (e : Event) :
    s.Moves e (commitTransaction conn append visited s).2.store := by
  unfold commitTransaction
  cases s.tx.lookup conn with
  | none => exact .kept
  | some tx =>
    dsimp only
    rcases mutate_cases append (Transaction.commit (tx.batch visited)) s.store with
      ⟨r, hr⟩ | ⟨hcheck, -, store, happly, hr⟩
    · rw [hr]
      exact .kept
    · rw [hr]
      exact .called hcheck happly

theorem beginTransaction_moves (append : Option Error) (visited : List String) (e : Event) :
    s.Moves e (beginTransaction conn append visited s).2.store := by
  have hcommit : s.Moves e (commitTransaction conn append visited s).2.store :=
    commitTransaction_moves append visited e
  simp only [beginTransaction, Bind.bind, Proc.bind]
  rcases hrun : commitTransaction conn append visited s with ⟨_ | _ | _, s₁⟩
  all_goals
    rw [hrun] at hcommit
    exact hcommit

theorem executeOn_moves (append : Option Error) (e : Event) {st : Statement}
    (hst : ∀ rows, st ≠ .insert rows) : s.Moves e (executeOn conn append st s).2.store := by
  rw [executeOn_eq append hst]
  rcases execute_engine append hst s.store with ⟨r, hr⟩ | ⟨c, store, -, hcheck, happly, hr⟩
  · rw [hr]
    exact .kept
  · rw [hr]
    exact .called hcheck happly

theorem executeLocked_moves (append : Option Error) (visited : List String) (rows : Insert) :
    s.Moves (.execute conn (.insert rows) append visited)
      (executeLocked conn append rows s).2.store := by
  unfold executeLocked
  split
  · exact .kept
  · cases htx : s.tx.lookup conn with
    | none =>
      simp only [executeOn, htx, execute]
      exact .inserted (executeInsert_moves append rows s.store)
    | some tx =>
      simp only [executeOn, htx, execute]
      exact .inserted (executeInsert_transaction_moves append rows ⟨s.store, tx⟩)

theorem Moves.map {α β : Type} {e : Event} {x : Proc Server Error α} (f : α → β)
    (h : s.Moves e (x s).2.store) : s.Moves e ((f <$> x) s).2.store := by
  rw [map_eq_pure_bind]
  simp only [Bind.bind, Proc.bind]
  rcases hx : x s with ⟨_ | _ | _, s'⟩
  all_goals
    rw [hx] at h
    exact h

theorem executeStatement_moves (append : Option Error) (visited : List String) (st : Statement) :
    s.Moves (.execute conn st append visited) (executeStatement conn append visited st s).2.store := by
  cases st with
  | begin => exact (beginTransaction_moves append visited _).map fun _ => 0
  | commit => exact (commitTransaction_moves append visited _).map fun _ => 0
  | rollback =>
    change s.Moves _ (if conn ∈ s.tx then s.dropTx conn else s).store
    split <;> exact .kept
  | insert rows => exact executeLocked_moves append visited rows
  | createTable | alterTable | createDatabase | dropDatabase | select | set | use
  | showStatement =>
    exact executeOn_moves append _ fun _ heq => Statement.noConfusion heq

theorem step_moves {e : Event} (h : s.step e = some s') : s.Moves e s'.store := by
  unfold step at h
  split at h
  · cases e with
    | execute conn st append visited =>
      have hmoves : s.Moves (.execute conn st append visited)
          (executeStatement conn append visited st s).2.store :=
        executeStatement_moves append visited st
      dsimp only at h
      rcases hrun : executeStatement conn append visited st s with ⟨_ | _ | _, s₁⟩
      all_goals
        simp only [hrun, some.injEq] at h hmoves
        subst h
        exact hmoves
    | disconnect conn =>
      cases h
      exact .kept
  · cases h

end Server

/-- The counters are above the keys, and the index has the keys of rows only. -/
structure Store.Counts (s : Store) : Prop where
  wf : s.Wf
  counted : s.All Table.Counted
  indexed : s.All Table.Indexed

section Steps
variable {store store' : Store}

theorem Store.Counts.apply (h : store.Counts) {c : Call} (hcheck : check store c = .ok true)
    (happly : apply store c = .ok store') : store'.Counts := by
  obtain ⟨store₁, happly₁, -, hwf⟩ := apply_of_check h.wf hcheck
  cases happly.symm.trans happly₁
  exact ⟨hwf, apply_all Table.counted_grown h.counted happly,
    apply_all Table.indexed_grown h.indexed happly⟩

theorem Store.Counts.drawn (h : store.Counts) {table : String} {k n : Nat} {t : Table}
    (ht : store.tables.lookup table = some t) (hk : k ≤ n)
    (hroom : ∀ p ∈ t.autoIncrement, p.2.toInt + n ≤ Int64.maxValue.toInt)
    (hdrawn : store.Drawn table k store') : store'.Counts := by
  refine ⟨hdrawn.all h.wf fun t _ hwf => hwf.advance k, hdrawn.all h.counted fun u hu hcounted => ?_,
    hdrawn.all h.indexed fun _ _ hindexed => hindexed⟩
  cases ht.symm.trans hu
  refine hcounted.advance fun p hp => ?_
  have hp := hroom p hp
  omega

theorem Insert.Moves.counts {rows : Insert} (h : store.Counts) (hmoves : rows.Moves store store')
    (hroom : ∀ t ∈ store.tables.lookup rows.table, ∀ p ∈ t.autoIncrement,
      p.2.toInt + rows.draws t.schema ≤ Int64.maxValue.toInt) : store'.Counts := by
  cases hmoves with
  | kept => exact h
  | drew ht hle hdrawn => exact h.drawn ht hle (hroom _ ht) hdrawn
  | stored ht hdrawn hcheck happly => exact (h.drawn ht le_rfl (hroom _ ht) hdrawn).apply hcheck happly

theorem Server.Moves.counts {e : Event} (h : s.store.Counts) (hg : CountersGuarded s e)
    (hmoves : s.Moves e store) : store.Counts := by
  cases hmoves with
  | kept => exact h
  | called hcheck happly => exact h.apply hcheck happly
  | inserted hmoves => exact hmoves.counts h fun t ht p hp => (hg t ht p hp).1

theorem counts_of_run (h : Runs.Reach Server.step CountersGuarded (.start .empty) s) :
    s.store.Counts :=
  h.invariant ⟨all_empty, all_empty, all_empty⟩ fun _ _ _ hs hg hstep =>
    (Server.step_moves hstep).counts hs hg

end Steps

end

section Batches
variable {s : Store} {rows : Insert} {t : Table} {i a n : Nat} {next : Int64} {batch : List Row}
  (ht : s.tables.lookup rows.table = some t) (hauto : t.autoIncrement = some (a, next))
  (hbatch : Lists.Threaded (RowDraw s rows.table t.schema rows.columns) 0 rows.rows batch n)
  (hroom : next.toInt + n ≤ Int64.maxValue.toInt)
variable {key : Value}

def keyAt (i : Nat) (batch : List Row) (j : Nat) : Option Value := (batch[j]?).bind fun row => row[i]?

include ht hauto hbatch in
theorem keyAt_cases {j : Nat} (hkey : keyAt i batch j = some key) :
    ∃ row, rows.rows[j]? = some row ∧ ((generatesKey rows.table t.schema rows.columns i row = true ∧
          ∃ l < n, key = .int (next + Int64.ofNat l)) ∨
        generatesKey rows.table t.schema rows.columns i row = false ∧
          key ∈ rows.givenKeys t.schema i) := by
  obtain ⟨values, hvalues, hcell⟩ := bind_eq_some_iff.mp hkey
  obtain ⟨row, k, k', hrow, hdraw, -, hk'⟩ := hbatch.getElem? (fun _ _ _ _ h => RowDraw.le h) hvalues
  refine ⟨row, hrow, ?_⟩
  rcases hdraw.key ht hauto hcell with ⟨hgenerates, l, -, hl, hkey⟩ | ⟨hgenerates, hgiven⟩
  · exact .inl ⟨hgenerates, l, by omega, hkey⟩
  · exact .inr ⟨hgenerates, mem_filterMap.mpr ⟨row, mem_of_getElem? hrow, hgiven⟩⟩

include ht hauto hbatch hroom in
theorem given_of_keyAt_eq (hgiven : ∀ key ∈ rows.givenKeys t.schema i, key.ahead next n = false)
    {p q : Nat} (hpq : p < q) (hp : keyAt i batch p = some key) (hq : keyAt i batch q = some key) :
    ∃ row row', rows.rows[p]? = some row ∧ rows.rows[q]? = some row' ∧
      generatesKey rows.table t.schema rows.columns i row' = false ∧
      givenKey rows.table t.schema rows.columns i row = some key ∧
      givenKey rows.table t.schema rows.columns i row' = some key := by
  obtain ⟨values, hvalues, hcell⟩ := bind_eq_some_iff.mp hp
  obtain ⟨values', hvalues', hcell'⟩ := bind_eq_some_iff.mp hq
  obtain ⟨row, row', k₁, k₂, k₃, k₄, hrow, hrow', hdraw, hdraw', -, hle, hn⟩ :=
    hbatch.getElem?_lt (fun _ _ _ _ h => RowDraw.le h) hpq hvalues hvalues'
  have hmono := hdraw.le
  have hmono' := hdraw'.le
  have hahead : ∀ l < n, ∀ r ∈ rows.rows, key = .int (next + Int64.ofNat l) →
      givenKey rows.table t.schema rows.columns i r ≠ some key := by
    rintro l hl r hr rfl hsome
    have hnot := hgiven _ (mem_filterMap.mpr ⟨r, hr, hsome⟩)
    rw [Value.ahead_of_lt hroom hl] at hnot
    cases hnot
  refine ⟨row, row', hrow, hrow', ?_⟩
  rcases hdraw.key ht hauto hcell with ⟨-, l, hl, hl', hkey⟩ | ⟨-, hrowKey⟩
  · rcases hdraw'.key ht hauto hcell' with ⟨-, m, hm, hm', hkey'⟩ | ⟨-, hrowKey'⟩
    · -- both drawn, the second after the first
      have heq : next + Int64.ofNat l = next + Int64.ofNat m := Value.int.inj (hkey.symm.trans hkey')
      have hint := congrArg Int64.toInt heq
      rw [toInt_add_ofNat (by omega), toInt_add_ofNat (by omega)] at hint
      omega
    · exact absurd hrowKey' (hahead l (by omega) row' (mem_of_getElem? hrow') hkey)
  · rcases hdraw'.key ht hauto hcell' with ⟨-, m, hm, hm', hkey'⟩ | ⟨hnot, hrowKey'⟩
    · exact absurd hrowKey (hahead m (by omega) row (mem_of_getElem? hrow) hkey')
    · exact ⟨hnot, hrowKey, hrowKey'⟩

end Batches

section Inserts
variable {s : Server} {conn : Nat} {append : Option Error} {rows : Insert} {t : Table} {i : Nat}
  {next : Int64} {batch : List Row} {visited : List String}
variable {store : Store}
variable {key : Value} {table : String}

def Server.converted (s : Server) (conn : Nat) (append : Option Error) (rows : Insert) :
    Result (List Row) :=
  match s.tx.lookup conn with
  | none => (convertRows (inMemoryStorage append) rows s.store).1
  | some tx => (convertRows (Transaction.storage append) rows ⟨s.store, tx⟩).1

def Server.KeyUnused (s : Server) (conn : Nat) (table : String) (t : Table) (i : Nat)
    (key : Value) : Prop :=
  (∀ row ∈ t.rows, row[i]? ≠ some key) ∧ key ∉ s.pendingKeys conn table i

instance (s : Server) (conn : Nat) (table : String) (t : Table) (i : Nat) (key : Value) :
    Decidable (s.KeyUnused conn table t i key) := by
  unfold Server.KeyUnused
  infer_instance

structure Converted (s : Store) (rows : Insert) (t : Table) (batch : List Row) (store : Store) :
    Prop where
  run : convertRows (inMemoryStorage none) rows s = (.ok batch, store)
  drawn : s.Drawn rows.table (rows.draws t.schema) store
  draws : Lists.Threaded (RowDraw s rows.table t.schema rows.columns) 0 rows.rows batch
    (rows.draws t.schema)

theorem converted_of_ok (ht : s.store.tables.lookup rows.table = some t)
    (h : s.converted conn append rows = .ok batch) :
    ∃ store, Converted s.store rows t batch store := by
  have hrun : (convertRows (inMemoryStorage none) rows s.store).1 = .ok batch := by
    unfold Server.converted at h
    split at h
    · exact h
    · rw [convertRows_storage] at h
      exact h
  have hdraws := convertRows_draws none rows s.store s.store rfl
  rcases hconvert : convertRows (inMemoryStorage none) rows s.store with ⟨r, store⟩
  rw [hconvert] at hrun hdraws
  cases hrun
  obtain ⟨u, k, hu, rfl, hthread, hdrawn⟩ := hdraws
  cases ht.symm.trans hu
  exact ⟨store, hconvert, hdrawn, hthread⟩

structure FreshBatch (s : Server) (conn : Nat) (rows : Insert) (t : Table) (i : Nat)
    (batch : List Row) : Prop where
  generated : ∀ j row key, rows.rows[j]? = some row →
    generatesKey rows.table t.schema rows.columns i row = true → keyAt i batch j = some key →
      s.KeyUnused conn rows.table t i key ∧ ∀ j' < j, keyAt i batch j' ≠ some key
  given : ∀ j key, keyAt i batch j = some key → s.KeyUnused conn rows.table t i key ∨
    key ∈ rows.givenKeys t.schema i
  equal : ∀ p q key, p < q → keyAt i batch p = some key → keyAt i batch q = some key →
    ¬ (rows.givenKeys t.schema i).Nodup

/-- Keys that were drawn are new, also to the earlier rows of the statement. -/
theorem freshBatch (hs : s.store.Counts)
    (hg : CountersGuarded s (.execute conn (.insert rows) append visited))
    (ht : s.store.tables.lookup rows.table = some t) (hkey : t.primaryKeyIndex = some i)
    (hauto : t.autoIncrement = some (i, next)) (hbatch : Converted s.store rows t batch store) :
    FreshBatch s conn rows t i batch := by
  obtain ⟨hroom, hahead⟩ := hg t ht (i, next) hauto
  dsimp only at hroom hahead
  have hahead := hahead hkey
  have hgiven : ∀ key ∈ rows.givenKeys t.schema i, key.ahead next (rows.draws t.schema) = false :=
    fun key hmem => hahead key (mem_append_left _ hmem)
  have hunused : ∀ l < rows.draws t.schema,
      s.KeyUnused conn rows.table t i (.int (next + Int64.ofNat l)) := by
    intro l hl
    have hadd : (next + Int64.ofNat l).toInt = next.toInt + l := toInt_add_ofNat (by omega)
    constructor
    · intro row hrow hcell
      rcases hs.counted _ t ht i next hauto row hrow _ hcell with hlt | hmax
      · omega
      · rw [hmax] at hadd
        omega
    · intro hmem
      have hnot := hahead _ (mem_append_right _ hmem)
      rw [Value.ahead_of_lt hroom hl] at hnot
      cases hnot
  constructor
  · intro j row key hrow hgenerates hcell
    obtain ⟨row', hrow', hcases⟩ := keyAt_cases ht hauto hbatch.draws hcell
    cases hrow.symm.trans hrow'
    rcases hcases with ⟨-, l, hl, rfl⟩ | ⟨hnot, -⟩
    · refine ⟨hunused l hl, fun j' hj' hcell' => ?_⟩
      obtain ⟨-, row', -, hrow', hnot, -⟩ :=
        given_of_keyAt_eq ht hauto hbatch.draws hroom hgiven hj' hcell' hcell
      cases hrow.symm.trans hrow'
      cases hgenerates.symm.trans hnot
    · cases hgenerates.symm.trans hnot
  · intro j key hcell
    obtain ⟨row, -, ⟨-, l, hl, rfl⟩ | ⟨-, hmem⟩⟩ := keyAt_cases ht hauto hbatch.draws hcell
    · exact .inl (hunused l hl)
    · exact .inr hmem
  · intro p q key hpq hp hq hnodup
    obtain ⟨row, row', hrow, hrow', -, hsome, hsome'⟩ :=
      given_of_keyAt_eq ht hauto hbatch.draws hroom hgiven hpq hp hq
    rw [Insert.givenKeys, nodup_iff_pairwise_ne, pairwise_filterMap, pairwise_iff_getElem] at hnodup
    obtain ⟨hp', hrow⟩ := List.getElem?_eq_some_iff.mp hrow
    obtain ⟨hq', hrow'⟩ := List.getElem?_eq_some_iff.mp hrow'
    rw [← hrow] at hsome
    rw [← hrow'] at hsome'
    exact hnodup p q hp' hq' hpq key hsome key hsome' rfl

structure NewKeys (s : Server) (conn : Nat) (table : String) (t : Table) (i : Nat)
    (batch : List Row) : Prop where
  unused : ∀ j key, keyAt i batch j = some key → s.KeyUnused conn table t i key
  distinct : ∀ p q key, p < q → keyAt i batch p = some key → keyAt i batch q ≠ some key

theorem FreshBatch.newKeys (h : FreshBatch s conn rows t i batch)
    (hnodup : (rows.givenKeys t.schema i).Nodup)
    (hunused : ∀ key ∈ rows.givenKeys t.schema i, s.KeyUnused conn rows.table t i key) :
    NewKeys s conn rows.table t i batch where
  unused j key hkey := (h.given j key hkey).elim id (hunused key)
  distinct p q key hpq hp hq := h.equal p q key hpq hp hq hnodup

theorem keyAt_of_mem {row : Row} (hrow : row ∈ batch) (hcell : row[i]? = some key) :
    ∃ j, keyAt i batch j = some key := by
  obtain ⟨j, hj⟩ := mem_iff_getElem?.mp hrow
  exact ⟨j, by rw [keyAt, hj, bind_some, hcell]⟩

theorem Table.Indexed.notMem (h : t.Indexed) (hkey : t.primaryKeyIndex = some i)
    (hunused : s.KeyUnused conn table t i key) : key ∉ t.index := by
  intro hmem
  obtain ⟨row, hrow, hcell⟩ := h i hkey key hmem
  exact hunused.1 row hrow hcell

theorem NewKeys.admits (h : NewKeys s conn table t i batch) (hwf : t.Wf) (hindexed : t.Indexed)
    (hkey : t.primaryKeyIndex = some i)
    (hwidth : ∀ row ∈ batch, row.length = t.schema.columns.length) : t.AdmitsRows batch where
  width := hwidth
  keys := by
    intro i' hi'
    rw [← hwf.keyIndex] at hi'
    cases hkey.symm.trans hi'
    constructor
    · rw [nodup_iff_pairwise_ne, pairwise_map, pairwise_iff_getElem]
      intro p q hp hq hpq heq
      have hlt : i < batch[p].length := by
        rw [hwidth _ (getElem_mem hp)]
        exact hwf.placed.key_lt hkey
      have hcell : batch[p][i]? = some batch[p][i] := getElem?_eq_getElem hlt
      refine h.distinct p q batch[p][i] hpq ?_ ?_
      · rw [keyAt, getElem?_eq_getElem hp, bind_some, hcell]
      · rw [keyAt, getElem?_eq_getElem hq, bind_some, ← heq, hcell]
    · intro row hrow key hcell
      obtain ⟨j, hj⟩ := keyAt_of_mem hrow hcell
      exact hindexed.notMem hkey (h.unused j key hj)

theorem mutate_of_check {c : Call} {go : Bool} (hs : store.Wf) (h : check store c = .ok go) :
    ∃ store', mutate none c store = (.ok (), store') := by
  cases go with
  | false => exact ⟨store, by simp only [mutate, h]⟩
  | true =>
    obtain ⟨store', happly, -, -⟩ := apply_of_check hs h
    exact ⟨store', by simp only [mutate, h, happly]⟩

theorem NewKeys.stored (h : NewKeys s conn rows.table t i batch) (hs : s.store.Counts)
    (ht : s.store.tables.lookup rows.table = some t) (hkey : t.primaryKeyIndex = some i)
    (hbatch : Converted s.store rows t batch store)
    (hwidth : ∀ row ∈ batch, row.length = t.schema.columns.length) :
    (executeInsert (inMemoryStorage none) rows s.store).1 = .ok batch.length := by
  have hwf : store.Wf := hbatch.drawn.all hs.wf fun _ _ hwf => hwf.advance _
  have hadmits : t.AdmitsRows batch :=
    h.admits (hs.wf _ t ht) (hs.indexed _ t ht) hkey hwidth
  have hcheck : check store (.insertRows (rows.pairs batch)) =
      .ok (decide (rows.pairs batch ≠ [])) := by
    refine check_of_tables hwf.placed fun p hp => ?_
    obtain ⟨row, -, rfl⟩ := mem_map.mp hp
    refine ⟨_, hbatch.drawn.lookup ht, ?_⟩
    rw [Insert.pairs, rowsFor_pairs, if_pos rfl]
    exact ⟨hadmits.width, hadmits.keys⟩
  obtain ⟨store', hrun⟩ := mutate_of_check hwf hcheck
  simp only [executeInsert, Bind.bind, Proc.bind, hbatch.run]
  simp only [inMemoryStorage, ← Insert.pairs.eq_1, hrun]
  rfl

/-- A batch with new keys is buffered without a refusal. -/
theorem NewKeys.buffered {tx : Transaction} (h : NewKeys s conn rows.table t i batch)
    (hs : s.store.Counts) (ht : s.store.tables.lookup rows.table = some t)
    (htx : s.tx.lookup conn = some tx) (hkey : t.primaryKeyIndex = some i)
    (hbatch : Converted s.store rows t batch store)
    (hwidth : ∀ row ∈ batch, row.length = t.schema.columns.length) (e : Error) :
    (executeInsert (Transaction.storage none) rows ⟨s.store, tx⟩).1 ≠ .err e := by
  have hwf := hs.wf _ t ht
  have hlookup := hbatch.drawn.lookup ht
  rw [Transaction.executeInsert_storage]
  simp only [hbatch.run]
  rcases Transaction.insertEach_cases ⟨store, tx⟩ (batch.map fun row => (rows.table, row)) with
    hall | ⟨r, p, done, rest, hpairs, hr, -, hp, hend⟩
  · rw [hall]
    simp
  · rw [hend]
    obtain ⟨before, tail, rfl, rfl, htail⟩ := map_eq_append_iff.mp hpairs
    obtain ⟨row, after, rfl, rfl, -⟩ := map_eq_cons_iff.mp htail
    have hrow : row ∈ before ++ row :: after := by simp
    have hlt : i < row.length := hwidth row hrow ▸ hwf.placed.key_lt hkey
    have hcell : row[i]? = some row[i] := getElem?_eq_getElem hlt
    have hposition : keyAt i (before ++ row :: after) before.length = some row[i] := by
      simp [keyAt, hcell]
    have hunused := h.unused _ _ hposition
    have hnone : store.lookupByPrimaryKey rows.table row[i] = .ok none := by
      have hindex : t.index.lookup row[i] = none :=
        Finmap.lookup_eq_none.mpr ((hs.indexed _ t ht).notMem hkey hunused)
      simp [Store.lookupByPrimaryKey, hlookup, okOr, Table.advance, hindex]
    have habsent : ∀ r ∈ (tx.pushAll (before.map fun row => (rows.table, row))).rows rows.table,
        r[i]? ≠ some row[i] := by
      intro r hr hcell'
      rw [Transaction.rows_pushAll, rowsFor_pairs, if_pos rfl] at hr
      rcases mem_append.mp hr with hr | hr
      · refine hunused.2 ?_
        simp only [Server.pendingKeys, htx, mem_filterMap]
        exact ⟨r, hr, hcell'⟩
      · obtain ⟨j, hj⟩ := mem_iff_getElem?.mp hr
        obtain ⟨hjlt, -⟩ := List.getElem?_eq_some_iff.mp hj
        refine h.distinct j before.length row[i] hjlt ?_ hposition
        rw [keyAt, getElem?_append_left hjlt, hj, bind_some, hcell']
    have hschema : store.tableSchema rows.table = .ok t.schema := by
      simp [Store.tableSchema, hlookup, okOr, Table.advance]
    have hfst := congrArg Prod.fst hp
    rw [Transaction.insertRow_fst hschema (hwidth row hrow),
      Transaction.buffer_keyed (hwf.keyIndex ▸ hkey) hcell, hnone, Outcome.ok_bind] at hfst
    rcases Transaction.findKey_of_absent habsent with hfound | hfound
    · rw [hfound] at hfst
      exact absurd hfst.symm hr
    · rw [hfound] at hfst
      cases hfst
      simp

/-- A key generated in a guarded run is unused and differs from those of the rows before it;
an `INSERT` whose given keys are new is not refused for the generated ones. -/
theorem generated_key_unused (hrun : Runs.Reach Server.step CountersGuarded (.start .empty) s)
    (hg : CountersGuarded s (.execute conn (.insert rows) append visited))
    (ht : s.store.tables.lookup rows.table = some t) (hkey : t.primaryKeyIndex = some i)
    (hauto : t.autoIncrement = some (i, next))
    (hbatch : s.converted conn append rows = .ok batch) :
    (∀ j row key, rows.rows[j]? = some row →
      generatesKey rows.table t.schema rows.columns i row = true → keyAt i batch j = some key →
        s.KeyUnused conn rows.table t i key ∧ ∀ j' < j, keyAt i batch j' ≠ some key) ∧
    ((rows.givenKeys t.schema i).Nodup →
      (∀ key ∈ rows.givenKeys t.schema i, s.KeyUnused conn rows.table t i key) →
      (s.owner rows.table).any (· ≠ conn) = false → append = none →
        ∀ e, (Server.executeStatement conn append visited (.insert rows) s).1 ≠ .err e) := by
  have hs := counts_of_run hrun
  obtain ⟨store, hconverted⟩ := converted_of_ok ht hbatch
  have hfresh := freshBatch hs hg ht hkey hauto hconverted
  refine ⟨hfresh.generated, ?_⟩
  rintro hnodup hunused hlock rfl e
  have hnew := hfresh.newKeys hnodup hunused
  have hwidth : ∀ row ∈ batch, row.length = t.schema.columns.length := by
    intro row hrow
    obtain ⟨j, hj⟩ := mem_iff_getElem?.mp hrow
    obtain ⟨exprs, k, k', -, hdraw, -⟩ := hconverted.draws.getElem? (fun _ _ _ _ h => RowDraw.le h) hj
    exact hdraw.length
  change (Server.executeLocked conn none rows s).1 ≠ .err e
  rw [Server.executeLocked, if_neg (by rw [hlock]; decide)]
  cases htx : s.tx.lookup conn with
  | none =>
    have hstored := hnew.stored hs ht hkey hconverted hwidth
    simp only [Server.executeOn, htx, Proc.within, Server.storePart, execute, hstored]
    simp
  | some tx =>
    simp only [Server.executeOn, htx, execute]
    exact hnew.buffered hs ht htx hkey hconverted hwidth e

end Inserts

instance (s : Server) (e : Event) : Decidable (CountersGuarded s e) := by
  unfold CountersGuarded
  rcases e with ⟨_, ⟨⟩⟩ | _ <;> infer_instance

def countedTable : Event := run (.createTable "t" [⟨"id", "INT", true, true, true⟩]) []

def insertIds (keys : List Expr) : Insert := ⟨"t", none, keys.map fun key => [key]⟩

def insertedIds (events : List Event) (keys : List Expr) : Option (Result (List Row) × Result Nat) :=
  (events.foldlM Server.step (.start .empty)).map fun s =>
    (s.converted 1 none (insertIds keys),
      (Server.executeStatement 1 none [] (.insert (insertIds keys)) s).1)

def countedStatements : List Event :=
  [countedTable, run (.insert (insertIds [.integer 7])) [], run .begin [],
    run (.insert (insertIds [.null, .integer 3])) []]

theorem generated_key_unused_in_transaction :
    ∃ s t, countedStatements.foldlM Server.step (.start .empty) = some s ∧
      s.store.tables.lookup "t" = some t ∧
      (∀ j row key, (insertIds [.null, .integer 20, .null]).rows[j]? = some row →
        generatesKey "t" t.schema none 0 row = true →
        keyAt 0 [[.int 9], [.int 20], [.int 10]] j = some key → s.KeyUnused 1 "t" t 0 key ∧
            ∀ j' < j, keyAt 0 [[.int 9], [.int 20], [.int 10]] j' ≠ some key) ∧
      ∀ e, (Server.executeStatement 1 none []
        (.insert (insertIds [.null, .integer 20, .null])) s).1 ≠ .err e := by
  have hallowed : Runs.Allowed Server.step CountersGuarded (.start .empty) countedStatements := by
    decide +kernel
  have hstate : ∃ s, countedStatements.foldlM Server.step (.start .empty) = some s ∧
      ∃ t, s.store.tables.lookup "t" = some t ∧
        CountersGuarded s (run (.insert (insertIds [.null, .integer 20, .null])) []) ∧
        t.primaryKeyIndex = some 0 ∧ t.autoIncrement = some (0, 9) ∧
        s.converted 1 none (insertIds [.null, .integer 20, .null]) =
          .ok [[.int 9], [.int 20], [.int 10]] ∧
        ((insertIds [.null, .integer 20, .null]).givenKeys t.schema 0).Nodup ∧
        (∀ key ∈ (insertIds [.null, .integer 20, .null]).givenKeys t.schema 0,
          s.KeyUnused 1 "t" t 0 key) ∧ (s.owner "t").any (· ≠ 1) = false := by
    decide +kernel
  obtain ⟨s, hs, t, ht, hg, hkey, hauto, hbatch, hnodup, hunused, hlock⟩ := hstate
  obtain ⟨hgenerated, hok⟩ := generated_key_unused (hallowed.reach hs) hg ht hkey hauto hbatch
  exact ⟨s, t, hs, ht, hgenerated, hok hnodup hunused hlock rfl⟩

/-- A generated key that is the key of an earlier row, of a pending row, and of a committed
one once the counter has reached the largest number. -/
theorem generated_key_collides : insertedIds [countedTable] [.integer 1, .null] =
      some (.ok [[.int 1], [.int 1]], .err (Table.duplicateEntry (.int 1))) ∧
    insertedIds [countedTable, run .begin [], run (.insert (insertIds [.integer 1])) []] [.null] =
      some (.ok [[.int 1]], .err (Table.duplicateEntry (.int 1))) ∧
    insertedIds [countedTable, run (.insert (insertIds [.integer Int64.maxValue])) [],
        run (.insert (insertIds [.integer (Int64.maxValue - 1)])) []] [.null] =
      some (.ok [[.int Int64.maxValue]], .err (Table.duplicateEntry (.int Int64.maxValue))) := by
  refine ⟨?_, ?_, ?_⟩
  · decide +kernel
  · decide +kernel
  · decide +kernel

end MysqlRust
