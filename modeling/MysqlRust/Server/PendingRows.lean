import MysqlRust.Server.TableInvariants
import MysqlRust.Storage.Admission

/-! # Pending rows over whole runs

A transaction holds the lock of every table it has rows for, so the rows keep fitting their
table until they are committed: no other connection inserts into it. Only `ALTER TABLE` takes
no lock.
-/
namespace MysqlRust

open Function Proc

/-- A table with pending rows is not altered, unless it is to drop its key. -/
def RowsGuarded (s : Server) : Event → Prop
  | .execute _ (.alterTable table action) _ _ =>
    ∀ change ∈ (resolveAction action).toOption, change ≠ .dropPrimaryKey → s.NoPending table
  | _ => True

namespace Transaction.View
variable {v : View}

structure Sound (v : View) : Prop where
  wf : v.store.Wf
  ranged : v.store.All Table.Ranged
  pending : ∀ table, v.tx.rows table ≠ [] →
    ∃ t, v.store.tables.lookup table = some t ∧ t.AdmitsRows (v.tx.rows table)

theorem Sound.same (h : v.Sound) {store : Store} (hsame : v.store.Same store) :
    Sound { v with store } where
  wf := h.wf.same (fun _ _ => Table.Wf.same) hsame
  ranged := h.ranged.same (fun _ _ => Table.Ranged.same) hsame
  pending table hrows := by
    obtain ⟨t, ht, hadmits⟩ := h.pending table hrows
    obtain ⟨t', ht', hsame'⟩ := hsame.lookup ht
    exact ⟨t', ht', hadmits.same hsame'⟩

theorem Sound.table (h : v.Sound) {table : String} {t : Table}
    (ht : v.store.tables.lookup table = some t) : t.AdmitsRows (v.tx.rows table) :=
  Admitted.rows h.pending ht

theorem Sound.insertRow (h : v.Sound) (table : String) (row : Row) :
    (View.insertRow table row v).2.Sound := by
  rcases insertRow_cases v table row with hok | ⟨r, -, hrefused⟩
  · have hadmitted := Admitted.insertRow h.pending h.ranged hok
    rw [hok]
    exact ⟨h.wf, h.ranged, hadmitted.2⟩
  · rw [hrefused]
    exact h

theorem Sound.insertEach (h : v.Sound) (rows : List (String × Row)) :
    (Storage.insertEach View.insertRow rows v).2.Sound := by
  induction rows generalizing v with
  | nil => exact h
  | cons p rows ih =>
    have hfirst := h.insertRow p.1 p.2
    rcases insertRow_cases v p.1 p.2 with hp | ⟨r, hr, hp⟩
    · have hcons : Storage.insertEach View.insertRow (p :: rows) v =
          Storage.insertEach View.insertRow rows { v with tx := v.tx.push p.1 p.2 } :=
        bind_ok hp
      rw [hp] at hfirst
      rw [hcons]
      exact ih hfirst
    · have hcons : Storage.insertEach View.insertRow (p :: rows) v = (r, v) :=
        bind_fail hp fun _ => hr
      rw [hcons]
      exact h

theorem Sound.executeInsert (h : v.Sound) (append : Option Error) (rows : Insert) :
    (executeInsert (Transaction.storage append) rows v).2.Sound := by
  rcases executeInsert_transaction_cases (convertRows_triple append rows)
    (Store.Same.refl v.store) with ⟨s₁, hsame, hend⟩ | ⟨batch, s₁, ⟨-, hsame⟩, hend⟩
  · rw [hend]
    exact h.same hsame
  · rw [hend]
    exact (h.same hsame).insertEach (rows.pairs batch)

end Transaction.View

structure Server.Pends (s : Server) : Prop where
  wf : s.store.Wf
  ranged : s.store.All Table.Ranged
  pending : ∀ conn tx, s.tx.lookup conn = some tx → ∀ table, tx.rows table ≠ [] →
    s.owner table = some conn ∧
      ∃ t, s.store.tables.lookup table = some t ∧ t.AdmitsRows (tx.rows table)

namespace Server
variable {s s' : Server} {conn : Nat}

variable {store : Store} {visited : List String} {tx : Transaction}

theorem Pends.view (h : s.Pends) (htx : s.tx.lookup conn = some tx) :
    Transaction.View.Sound ⟨s.store, tx⟩ :=
  ⟨h.wf, h.ranged, fun table hrows => (h.pending conn tx htx table hrows).2⟩

theorem Pends.kept (h : s.Pends) (hwf : s'.store.Wf) (hranged : s'.store.All Table.Ranged)
    (htx : s.TxKept s')
    (hkept : ∀ other tx table t, s'.tx.lookup other = some tx → tx.rows table ≠ [] →
      s.owner table = some other → s.store.tables.lookup table = some t →
      t.AdmitsRows (tx.rows table) → s'.owner table = some other ∧
        ∃ t', s'.store.tables.lookup table = some t' ∧ t'.AdmitsRows (tx.rows table)) :
    s'.Pends := by
  refine ⟨hwf, hranged, fun other tx hother table hrows => ?_⟩
  rcases htx other tx hother with rfl | hold
  · exact absurd rfl hrows
  · obtain ⟨howner, t, ht, hadmits⟩ := h.pending other tx hold table hrows
    exact hkept other tx table t hother hrows howner ht hadmits

theorem Pends.same (h : s.Pends) (hsame : s.store.Same store) : Pends { s with store } := by
  refine h.kept (h.wf.same (fun _ _ => Table.Wf.same) hsame)
    (h.ranged.same (fun _ _ => Table.Ranged.same) hsame) (TxKept.of_eq rfl)
    fun other tx table t _ _ howner ht hadmits => ⟨howner, ?_⟩
  obtain ⟨t', ht', hsame'⟩ := hsame.lookup ht
  exact ⟨t', ht', hadmits.same hsame'⟩

theorem Pends.dropTx (h : s.Pends) (conn : Nat) : (s.dropTx conn).Pends := by
  refine h.kept h.wf h.ranged (TxKept.refl s).dropTx
    fun other tx table t hother _ howner ht hadmits => ⟨?_, t, ht, hadmits⟩
  have hne : other ≠ conn := by
    rintro rfl
    simp [Server.dropTx] at hother
  simp [Server.dropTx, howner, hne]

theorem Pends.insertRows (h : s.Pends) {rows : List (String × Row)} {store : Store}
    (hcheck : check s.store (.insertRows rows) = .ok true)
    (happly : apply s.store (.insertRows rows) = .ok store)
    (hfree : ∀ table, rowsFor table rows ≠ [] →
      ∀ other tx, s.tx.lookup other = some tx → tx.rows table = []) :
    Pends { s with store } := by
  obtain ⟨store', happly', -, hwf⟩ := apply_of_check h.wf hcheck
  cases happly.symm.trans happly'
  refine h.kept hwf (apply_ranged h.ranged happly) (TxKept.of_eq rfl)
    fun other tx table t hother hrows howner ht hadmits => ⟨howner, t, ?_, hadmits⟩
  refine apply_lookup ht ?_ (fun halters => by cases halters) happly
  by_contra hne
  exact hrows (hfree table hne other tx hother)

theorem Pends.commitTransaction (h : s.Pends) (append : Option Error)
    (horder : ∀ tx ∈ s.tx.lookup conn, tx.Order visited) :
    (commitTransaction conn append visited s).2.Pends := by
  unfold Server.commitTransaction
  cases htx : s.tx.lookup conn with
  | none => exact h
  | some tx =>
    simp only [Transaction.commit_batch]
    rcases mutate_cases append (.insertRows (tx.commitRows visited)) s.store with
      ⟨r, hr⟩ | ⟨hcheck, -, store, happly, hr⟩
    · rw [hr]
      exact h.dropTx conn
    · rw [hr]
      -- the other transactions still have their rows; this one leaves with its own
      have hdropped : ({ s with store } : Server).dropTx conn = { s.dropTx conn with store } := rfl
      rw [hdropped]
      refine (h.dropTx conn).insertRows hcheck happly fun table hrows other tx' hother => ?_
      rw [Transaction.rowsFor_commitRows (horder tx htx)] at hrows
      by_contra hrows'
      have howner := ((h.dropTx conn).pending other tx' hother table hrows').1
      simp [Server.dropTx, (h.pending conn tx htx table hrows).1] at howner

theorem Pends.setTx_new (h : s.Pends) : (s.setTx conn .new).Pends := by
  refine h.kept h.wf h.ranged (TxKept.refl s).setTx_new
    fun other tx table t _ _ howner ht hadmits => ⟨howner, t, ht, hadmits⟩

theorem Pends.beginTransaction (h : s.Pends) (append : Option Error)
    (horder : ∀ tx ∈ s.tx.lookup conn, tx.Order visited) :
    (beginTransaction conn append visited s).2.Pends := by
  have hcommit := h.commitTransaction append horder
  simp only [Server.beginTransaction, Bind.bind, Proc.bind]
  rcases hrun : Server.commitTransaction conn append visited s with ⟨_ | _ | _, s₁⟩
  all_goals rw [hrun] at hcommit
  · exact hcommit.setTx_new
  · exact hcommit
  · exact hcommit

variable {table : String} {st : Statement}

theorem Pends.alterTable (h : s.Pends) {change : SchemaChange}
    (hguard : change ≠ .dropPrimaryKey → s.NoPending table)
    (happly : apply s.store (.alterTable table change) = .ok store) : Pends { s with store } := by
  have hwf := apply_post (c := .alterTable table change) h.wf fun p hp => by cases hp
  rw [happly] at hwf
  refine h.kept hwf (apply_ranged h.ranged happly) (TxKept.of_eq rfl)
    fun other tx name t hother hrows howner ht hadmits => ⟨howner, ?_⟩
  by_cases hname : name = table
  · subst hname
    obtain ⟨u, altered, hu, haltered, rfl⟩ := apply_alterTable_eq_ok happly
    cases ht.symm.trans hu
    have hdrop : change = .dropPrimaryKey := by
      by_contra hne
      have hmem : other ∈ s.tx.keys := Finmap.mem_keys.mpr (Finmap.mem_iff.mpr ⟨tx, hother⟩)
      exact hrows (hguard hne other hmem tx hother)
    subst hdrop
    refine ⟨altered, lookup_setTable _ _ _, ⟨fun row hrow => ?_, fun i hi => ?_⟩⟩
    · rw [computeAlteredTable_width rfl haltered]
      exact hadmits.width row hrow
    · rw [(pushAll_eq_ok (dropPrimaryKey_eq_ok haltered)).1] at hi
      simp [Table.new, TableSchema.keyIndex] at hi
  · refine ⟨t, apply_lookup ht rfl (fun halters => hname ?_) happly, hadmits⟩
    exact (Option.some.inj halters).symm

theorem Pends.call (h : s.Pends) {c : Call} (hinserts : c.inserts = []) (halters : c.alters = none)
    (happly : apply s.store c = .ok store) : Pends { s with store } := by
  have hwf := apply_post (c := c) h.wf fun p hp => by simp [hinserts] at hp
  rw [happly] at hwf
  refine h.kept hwf (apply_ranged h.ranged happly) (TxKept.of_eq rfl)
    fun other tx table t _ _ howner ht hadmits => ⟨howner, t, ?_, hadmits⟩
  exact apply_lookup ht (by rw [hinserts]; rfl) (by rw [halters]; exact fun h => by cases h) happly

theorem Pends.executeOn (h : s.Pends) (append : Option Error) (hst : ∀ rows, st ≠ .insert rows)
    (hg : RowsGuarded s (.execute conn st append visited)) :
    (executeOn conn append st s).2.Pends := by
  rw [executeOn_eq append hst]
  rcases execute_engine append hst s.store with ⟨r, hr⟩ | ⟨c, store, hcalls, -, happly, hr⟩
  · rw [hr]
    exact h
  · rw [hr]
    cases hcalls with
    | createTable hresolve => exact h.call rfl rfl happly
    | alterTable hresolve =>
      exact h.alterTable (hg _ (Outcome.mem_toOption.mpr hresolve)) happly
    | createDatabase => exact h.call rfl rfl happly
    | dropDatabase => exact h.call rfl rfl happly

/-- Whoever may insert into a table is the only one with rows for it. -/
theorem Pends.rows_eq_nil (h : s.Pends) (hlock : ¬ (s.owner table).any (· ≠ conn)) {other : Nat}
    (hne : other ≠ conn) (hother : s.tx.lookup other = some tx) : tx.rows table = [] := by
  by_contra hrows
  have howner := (h.pending other tx hother table hrows).1
  simp [howner, hne] at hlock

theorem Pends.insertAutocommit (h : s.Pends) (append : Option Error) (rows : Insert)
    (hlock : ¬ (s.owner rows.table).any (· ≠ conn)) (htx : s.tx.lookup conn = none) :
    (Server.executeOn conn append (.insert rows) s).2.Pends := by
  simp only [Server.executeOn, htx, within, storePart, execute]
  rcases executeInsert_engine append rows s.store with
    hsame | ⟨batch, store, store', -, hsame, hcheck, happly, hrun⟩
  · exact h.same hsame
  · rw [hrun]
    refine (h.same hsame).insertRows hcheck happly fun table hrows other tx hother => ?_
    rw [Insert.pairs, rowsFor_pairs] at hrows
    split at hrows
    · rename_i heq
      subst heq
      refine h.rows_eq_nil hlock (fun heq => ?_) hother
      subst heq
      cases htx.symm.trans hother
    · exact absurd rfl hrows

theorem Pends.insertInTransaction (h : s.Pends) (append : Option Error) (rows : Insert)
    (hlock : ¬ (s.owner rows.table).any (· ≠ conn)) (htx : s.tx.lookup conn = some tx) :
    (Server.executeOn conn append (.insert rows)
      { s with owner := update s.owner rows.table (some conn) }).2.Pends := by
  simp only [Server.executeOn, htx, execute]
  obtain ⟨hsame, done, rest, -, hdone⟩ := executeInsert_transaction append rows ⟨s.store, tx⟩
  have hsound := (h.view htx).executeInsert append rows
  refine ⟨hsound.wf, hsound.ranged, fun other tx' hother table hrows => ?_⟩
  simp only [setTx] at hother
  by_cases heq : other = conn
  · subst heq
    rw [Finmap.lookup_insert, Option.some.injEq] at hother
    subst hother
    refine ⟨?_, hsound.pending table hrows⟩
    -- rows for another table were there before, under its lock
    by_cases htable : table = rows.table
    · subst htable
      exact update_self _ _ _
    · refine (update_of_ne htable _ _).trans
        (h.pending other tx htx table fun hnil => hrows ?_).1
      rw [hdone, Transaction.rows_pushAll, Insert.pairs, rowsFor_pairs, if_neg htable, hnil]
      rfl
  · rw [Finmap.lookup_insert_of_ne _ heq] at hother
    obtain ⟨howner, t, ht, hadmits⟩ := h.pending other tx' hother table hrows
    have htable : table ≠ rows.table := by
      rintro rfl
      exact hrows (h.rows_eq_nil hlock heq hother)
    obtain ⟨t', ht', hsame'⟩ := hsame.lookup ht
    exact ⟨(update_of_ne htable _ _).trans howner, t', ht', hadmits.same hsame'⟩

theorem Pends.executeLocked (h : s.Pends) (append : Option Error) (rows : Insert) :
    (executeLocked conn append rows s).2.Pends := by
  unfold Server.executeLocked
  split
  · exact h
  · rename_i hlock
    cases htx : s.tx.lookup conn with
    | none => exact h.insertAutocommit append rows hlock htx
    | some tx => exact h.insertInTransaction append rows hlock htx

theorem Pends.map {α β : Type} {x : Proc Server Error α} (f : α → β) (h : (x s).2.Pends) :
    ((f <$> x) s).2.Pends := by
  rw [map_eq_pure_bind]
  simp only [Bind.bind, Proc.bind]
  rcases hx : x s with ⟨_ | _ | _, s'⟩
  all_goals
    rw [hx] at h
    exact h

theorem Pends.executeStatement (h : s.Pends) (append : Option Error)
    (hvisits : s.VisitsPending (.execute conn st append visited))
    (hg : RowsGuarded s (.execute conn st append visited)) :
    (executeStatement conn append visited st s).2.Pends := by
  cases st with
  | begin => exact (h.beginTransaction append hvisits).map fun _ => 0
  | commit => exact (h.commitTransaction append hvisits).map fun _ => 0
  | rollback =>
    change (if conn ∈ s.tx then s.dropTx conn else s).Pends
    split
    · exact h.dropTx conn
    · exact h
  | insert rows => exact h.executeLocked append rows
  | createTable | alterTable | createDatabase | dropDatabase | select | set | use
  | showStatement =>
    exact h.executeOn append (fun _ heq => Statement.noConfusion heq) hg

theorem Pends.step (h : s.Pends) {e : Event} (hg : RowsGuarded s e) (hstep : s.step e = some s') :
    s'.Pends := by
  unfold Server.step at hstep
  split at hstep
  · rename_i hvisits
    cases e with
    | execute conn st append visited =>
      have hafter := h.executeStatement append hvisits hg
      dsimp only at hstep
      rcases hrun : Server.executeStatement conn append visited st s with ⟨_ | _ | _, s₁⟩
      all_goals
        simp only [hrun, Option.some.injEq] at hstep hafter
        subst hstep
      · exact hafter
      · exact hafter
      · exact hafter.dropTx conn
    | disconnect conn =>
      cases hstep
      exact h.dropTx conn
  · cases hstep

theorem Pends.run (h : Runs.Reach Server.step RowsGuarded (.start .empty) s) : s.Pends := by
  refine h.invariant ⟨all_empty, all_empty, fun conn tx htx => ?_⟩ fun _ _ _ hs hg hstep =>
    hs.step hg hstep
  simp [Server.start] at htx

end Server

end MysqlRust
