import MysqlRust.Query.Executor

/-! # Statements of many connections, one at a time

Each statement runs to its end before the next one of any connection starts. How its log append
ends, and in which order a `COMMIT` visits the tables with pending rows, comes from outside.
-/
namespace MysqlRust

structure Server where
  store : Store
  /-- The connection whose transaction holds the write lock of a table. -/
  owner : String → Option Nat
  /-- The open transactions by connection. -/
  tx : Finmap fun _ : Nat => Transaction

namespace Server

def start (store : Store) : Server := ⟨store, fun _ => none, ∅⟩

def storePart : Proc.Part Server Store where
  get := Server.store
  set store s := { s with store }
  get_set _ _ := rfl
  set_set _ _ _ := rfl
  set_get _ := rfl

def setTx (s : Server) (conn : Nat) (tx : Transaction) : Server :=
  { s with tx := s.tx.insert conn tx }

/-- The locks of a transaction are released when it is dropped. -/
def dropTx (s : Server) (conn : Nat) : Server where
  store := s.store
  owner table := if s.owner table = some conn then none else s.owner table
  tx := s.tx.erase conn

def lockWaitTimeout : Error :=
  .execution "Lock wait timeout exceeded; try restarting transaction"

def executeOn (conn : Nat) (append : Option Error) (st : Statement) : Proc Server Error Nat :=
  fun s =>
    match s.tx.lookup conn with
    | none => Proc.within storePart (execute (inMemoryStorage append) st) s
    | some tx =>
      let (result, v) := execute (Transaction.storage append) st ⟨s.store, tx⟩
      (result, { s with store := v.store }.setTx conn v.tx)

def commitTransaction (conn : Nat) (append : Option Error) (tables : List String) :
    Proc Server Error Unit := fun s =>
  match s.tx.lookup conn with
  | none => (.ok (), s)
  | some tx =>
    let (result, store) := mutate append (Transaction.commit (tx.batch tables)) s.store
    (result, { s with store }.dropTx conn)

def beginTransaction (conn : Nat) (append : Option Error) (tables : List String) :
    Proc Server Error Unit := do
  commitTransaction conn append tables
  fun s => (.ok (), s.setTx conn .new)

def executeLocked (conn : Nat) (append : Option Error) (rows : Insert) : Proc Server Error Nat :=
  fun s =>
    if (s.owner rows.table).any (· ≠ conn) then (.err lockWaitTimeout, s)
    else
      match s.tx.lookup conn with
      | none => executeOn conn append (.insert rows) s
      | some _ => executeOn conn append (.insert rows)
          { s with owner := Function.update s.owner rows.table (some conn) }

def executeStatement (conn : Nat) (append : Option Error) (tables : List String) :
    Statement → Proc Server Error Nat
  | .begin => (fun _ => 0) <$> beginTransaction conn append tables
  | .commit => (fun _ => 0) <$> commitTransaction conn append tables
  | .rollback => fun s => (.ok 0, if conn ∈ s.tx then s.dropTx conn else s)
  | .insert rows => executeLocked conn append rows
  | st => executeOn conn append st

end Server

inductive Event where
  | execute (conn : Nat) (st : Statement) (append : Option Error) (tables : List String)
  | disconnect (conn : Nat)

def Server.VisitsPending (s : Server) : Event → Prop
  | .execute conn .commit _ tables | .execute conn .begin _ tables =>
    ∀ tx ∈ s.tx.lookup conn, tx.Order tables
  | _ => True

instance (s : Server) (e : Event) : Decidable (s.VisitsPending e) := by
  unfold Server.VisitsPending
  split <;> infer_instance

def Server.step (s : Server) (e : Event) : Option Server :=
  if s.VisitsPending e then
    match e with
    | .execute conn st append tables =>
      match executeStatement conn append tables st s with
      | (.panic, s') => some (s'.dropTx conn)
      | (_, s') => some s'
    | .disconnect conn => some (s.dropTx conn)
  else none

section Effects

def Server.TxKept (s s' : Server) : Prop :=
  ∀ conn tx, s'.tx.lookup conn = some tx → tx = .new ∨ s.tx.lookup conn = some tx

inductive Server.Effect (s : Server) : Event → Server → Prop
  | unchanged {e : Event} {s' : Server} (same : s.store.Same s'.store) (tx : s.TxKept s') :
      Effect s e s'
  | registered {e : Event} {s' : Server} (tables : s'.store.tables = s.store.tables)
      (tx : s'.tx = s.tx) : Effect s e s'
  | created {conn : Nat} {append : Option Error} {visited : List String} {s' : Server}
      {table : String} {defs : List ColumnDef} {columns : List ColumnSchema}
      {primaryKey : Option String} (resolved : resolveColumns defs = .ok (columns, primaryKey))
      (check : check s.store (.createTable table columns primaryKey) = .ok true)
      (apply : apply s.store (.createTable table columns primaryKey) = .ok s'.store)
      (tx : s'.tx = s.tx) : Effect s (.execute conn (.createTable table defs) append visited) s'
  | altered {conn : Nat} {append : Option Error} {visited : List String} {s' : Server}
      {table : String} {action : AlterAction} {change : SchemaChange}
      (resolved : resolveAction action = .ok change)
      (apply : apply s.store (.alterTable table change) = .ok s'.store)
      (tx : s'.tx = s.tx) : Effect s (.execute conn (.alterTable table action) append visited) s'
  | inserted {conn : Nat} {append : Option Error} {visited : List String} {s' : Server}
      {rows : Insert} {batch : List Row} {store : Store} (autocommit : s.tx.lookup conn = none)
      (converted : rows.Batch s.store batch) (same : s.store.Same store)
      (check : check store (.insertRows (rows.pairs batch)) = .ok true)
      (apply : apply store (.insertRows (rows.pairs batch)) = .ok s'.store)
      (tx : s'.tx = s.tx) : Effect s (.execute conn (.insert rows) append visited) s'
  | buffered {conn : Nat} {append : Option Error} {visited : List String} {s' : Server}
      {rows : Insert} {done rest : List Row} {tx : Transaction} (opened : s.tx.lookup conn = some tx)
      (converted : done ≠ [] → rows.Batch s.store (done ++ rest))
      (same : s.store.Same s'.store)
      (tx : s'.tx = s.tx.insert conn (tx.pushAll (rows.pairs done))) :
      Effect s (.execute conn (.insert rows) append visited) s'
  | committed {conn : Nat} {append : Option Error} {visited : List String} {s' : Server}
      {st : Statement} {tx : Transaction} (opened : s.tx.lookup conn = some tx)
      (order : tx.Order visited)
      (check : check s.store (.insertRows (tx.commitRows visited)) = .ok true)
      (apply : apply s.store (.insertRows (tx.commitRows visited)) = .ok s'.store)
      (tx : s.TxKept s') : Effect s (.execute conn st append visited) s'

namespace Server
variable {s s' : Server} {conn : Nat}

theorem TxKept.of_eq (h : s'.tx = s.tx) : s.TxKept s' := fun _ _ htx => .inr (h ▸ htx)

theorem TxKept.refl (s : Server) : s.TxKept s := .of_eq rfl

theorem TxKept.dropTx (h : s.TxKept s') : s.TxKept (s'.dropTx conn) := by
  intro other tx htx
  by_cases heq : other = conn
  · subst heq
    simp [Server.dropTx] at htx
  · simp only [Server.dropTx, Finmap.lookup_erase_ne heq] at htx
    exact h other tx htx

theorem TxKept.setTx_new (h : s.TxKept s') : s.TxKept (s'.setTx conn .new) := by
  intro other tx htx
  by_cases heq : other = conn
  · subst heq
    simp only [Server.setTx, Finmap.lookup_insert, Option.some.injEq] at htx
    exact .inl htx.symm
  · simp only [Server.setTx, Finmap.lookup_insert_of_ne _ heq] at htx
    exact h other tx htx

theorem insert_lookup {m : Finmap fun _ : Nat => Transaction} {tx : Transaction}
    (h : m.lookup conn = some tx) : m.insert conn tx = m := by
  refine Finmap.ext_lookup fun other => ?_
  by_cases heq : other = conn
  · subst heq
    rw [Finmap.lookup_insert, h]
  · rw [Finmap.lookup_insert_of_ne _ heq]

variable {st : Statement} {visited : List String}

theorem executeOn_eq (append : Option Error) (hst : ∀ rows, st ≠ .insert rows) :
    executeOn conn append st s = ((execute (inMemoryStorage append) st s.store).1,
      { s with store := (execute (inMemoryStorage append) st s.store).2 }) := by
  unfold executeOn
  split
  · rfl
  · rename_i tx htx
    rw [execute_storage append hst]
    simp only [Transaction.View.onStore, Proc.within, Transaction.View.storePart, setTx,
      insert_lookup htx]

/-- What a statement leaves, and what is left once a panic has ended its connection. -/
structure Settles (s : Server) (conn : Nat) (e : Event) (p : Outcome Error Nat × Server) :
    Prop where
  effect : s.Effect e p.2
  panicked : p.1 = .panic → s.Effect e (p.2.dropTx conn)

theorem settles_unchanged {e : Event} {r : Outcome Error Nat} (hsame : s.store.Same s'.store)
    (htx : s.TxKept s') : s.Settles conn e (r, s') :=
  ⟨.unchanged hsame htx, fun _ => .unchanged hsame htx.dropTx⟩

theorem settles_executeOn (append : Option Error) (visited : List String)
    (hst : ∀ rows, st ≠ .insert rows) :
    s.Settles conn (.execute conn st append visited) (executeOn conn append st s) := by
  rw [executeOn_eq append hst]
  rcases execute_engine append hst s.store with ⟨r, h⟩ | ⟨c, store, hcalls, hcheck, happly, h⟩
  · rw [h]
    exact settles_unchanged (.refl s.store) (.refl s)
  · rw [h]
    refine ⟨?_, fun hpanic => by cases hpanic⟩
    cases hcalls with
    | createTable hresolve => exact .created hresolve hcheck happly rfl
    | alterTable hresolve => exact .altered hresolve happly rfl
    | createDatabase => exact .registered (apply_createDatabase_tables happly) rfl
    | dropDatabase => exact .registered (apply_dropDatabase_tables happly) rfl

theorem settles_insert (append : Option Error) (visited : List String) (rows : Insert)
    (owner : String → Option Nat) :
    s.Settles conn (.execute conn (.insert rows) append visited)
      (executeOn conn append (.insert rows) { s with owner }) := by
  unfold executeOn
  cases htx : s.tx.lookup conn with
  | none =>
    simp only [Proc.within, storePart, execute]
    rcases executeInsert_engine append rows s.store with
      hsame | ⟨batch, store, store', hbatch, hsame, hcheck, happly, h⟩
    · exact settles_unchanged hsame (.refl s)
    · rw [h]
      exact ⟨.inserted htx hbatch hsame hcheck happly rfl, fun hpanic => by cases hpanic⟩
  | some tx =>
    simp only [execute]
    obtain ⟨hsame, done, rest, hbatch, hdone⟩ :=
      executeInsert_transaction append rows ⟨s.store, tx⟩
    rw [hdone]
    refine ⟨.buffered htx hbatch hsame rfl, fun _ => .unchanged hsame ?_⟩
    intro other tx' htx'
    by_cases heq : other = conn
    · subst heq
      simp [dropTx] at htx'
    · simp only [dropTx, setTx, Finmap.lookup_erase_ne heq, Finmap.lookup_insert_of_ne _ heq] at htx'
      exact .inr htx'

/-- A commit leaves the tables as they were or applies the whole batch; the transaction is gone. -/
theorem commitTransaction_cases (append : Option Error)
    (horder : ∀ tx ∈ s.tx.lookup conn, tx.Order visited) :
    s.TxKept (commitTransaction conn append visited s).2 ∧
      (s.store.Same (commitTransaction conn append visited s).2.store ∨
        (commitTransaction conn append visited s).1 = .ok () ∧
        ∃ tx, s.tx.lookup conn = some tx ∧ tx.Order visited ∧
          check s.store (.insertRows (tx.commitRows visited)) = .ok true ∧
          apply s.store (.insertRows (tx.commitRows visited)) =
            .ok (commitTransaction conn append visited s).2.store) := by
  unfold commitTransaction
  cases htx : s.tx.lookup conn with
  | none => exact ⟨.refl s, .inl (.refl s.store)⟩
  | some tx =>
    simp only [Transaction.commit_batch]
    rcases mutate_cases append (.insertRows (tx.commitRows visited)) s.store with
      ⟨r, h⟩ | ⟨hcheck, -, store, happly, h⟩
    · rw [h]
      exact ⟨(TxKept.refl s).dropTx, .inl (.refl s.store)⟩
    · rw [h]
      refine ⟨(show s.TxKept { s with store } from .refl s).dropTx, .inr ⟨rfl, tx, rfl, ?_⟩⟩
      exact ⟨horder tx htx, hcheck, happly⟩

theorem settles_commit (append : Option Error)
    (horder : ∀ tx ∈ s.tx.lookup conn, tx.Order visited) :
    s.Settles conn (.execute conn st append visited)
      (((fun _ => 0) <$> commitTransaction conn append visited : Proc Server Error Nat) s) := by
  have h := commitTransaction_cases append horder
  rw [map_eq_pure_bind]
  simp only [Bind.bind, Proc.bind]
  rcases hrun : commitTransaction conn append visited s with ⟨r, s₁⟩
  rw [hrun] at h
  obtain ⟨htx, hsame | ⟨hr, tx, hopened, hvisited, hcheck, happly⟩⟩ := h
  · cases r <;> exact settles_unchanged hsame htx
  · cases hr
    exact ⟨.committed hopened hvisited hcheck happly htx, fun hpanic => by cases hpanic⟩

theorem settles_begin (append : Option Error) (horder : ∀ tx ∈ s.tx.lookup conn, tx.Order visited) :
    s.Settles conn (.execute conn st append visited)
      (((fun _ => 0) <$> beginTransaction conn append visited : Proc Server Error Nat) s) := by
  have h := commitTransaction_cases append horder
  rw [map_eq_pure_bind]
  simp only [beginTransaction, Bind.bind, Proc.bind]
  rcases hrun : commitTransaction conn append visited s with ⟨r, s₁⟩
  rw [hrun] at h
  obtain ⟨htx, hsame | ⟨hr, tx, hopened, hvisited, hcheck, happly⟩⟩ := h
  · cases r with
    | ok u => exact settles_unchanged hsame htx.setTx_new
    | err e => exact settles_unchanged hsame htx
    | panic => exact settles_unchanged hsame htx
  · cases hr
    exact ⟨.committed hopened hvisited hcheck happly htx.setTx_new, fun hpanic => by cases hpanic⟩

theorem settles_statement (append : Option Error) (visited : List String) (st : Statement)
    (hvisits : s.VisitsPending (.execute conn st append visited)) :
    s.Settles conn (.execute conn st append visited)
      (executeStatement conn append visited st s) := by
  cases st with
  | begin => exact settles_begin append hvisits
  | commit => exact settles_commit append hvisits
  | rollback =>
    refine settles_unchanged ?_ ?_
    · split <;> exact .refl s.store
    · split
      · exact (TxKept.refl s).dropTx
      · exact .refl s
  | insert rows =>
    change s.Settles conn _ (executeLocked conn append rows s)
    unfold executeLocked
    split
    · exact settles_unchanged (.refl s.store) (.refl s)
    · split
      · exact settles_insert append visited rows s.owner
      · exact settles_insert append visited rows _
  | createTable | alterTable | createDatabase | dropDatabase | select | set | use
  | showStatement =>
    exact settles_executeOn append visited fun _ h => Statement.noConfusion h

theorem step_effect {e : Event} (h : s.step e = some s') : s.Effect e s' := by
  unfold step at h
  split at h
  · rename_i hvisits
    cases e with
    | execute conn st append visited =>
      have hsettles := settles_statement append visited st hvisits
      dsimp only at h
      rcases hrun : executeStatement conn append visited st s with ⟨r, s₁⟩
      simp only [hrun] at h hsettles
      cases r with
      | ok n =>
        cases h
        exact hsettles.effect
      | err x =>
        cases h
        exact hsettles.effect
      | panic =>
        cases h
        exact hsettles.panicked rfl
    | disconnect conn =>
      cases h
      exact .unchanged (.refl s.store) (TxKept.refl s).dropTx
  · cases h

end Server

end Effects

end MysqlRust
