import MysqlRust.Server.Session
import MysqlRust.Storage.KeyIndex

/-! # Invariants of tables over runs of statements

A property of tables holds in every reachable state when new and altered tables have it and
admitted rows keep it. A second property says what is known of the rows that wait.
-/
namespace MysqlRust

def Server.NoPending (s : Server) (table : String) : Prop :=
  ∀ conn ∈ s.tx.keys, ∀ tx ∈ s.tx.lookup conn, tx.rows table = []
  deriving Decidable

/-- What makes `P` an invariant of tables and `Q` one of the rows on their way to them. -/
structure TableInvariant (Guard : Server → Event → Prop) (P : Table → Prop)
    (Q : TableSchema → Row → Prop) : Prop where
  same : ∀ t u, t.Same u → P t → P u
  new : ∀ s conn table defs append visited columns primaryKey,
    Guard s (.execute conn (.createTable table defs) append visited) →
    resolveColumns defs = .ok (columns, primaryKey) →
    (primaryKey.isSome → (TableSchema.mk columns primaryKey).keyIndex.isSome) →
    P (Table.new columns primaryKey)
  alter : ∀ s conn table action append visited change t t',
    Guard s (.execute conn (.alterTable table action) append visited) →
    resolveAction action = .ok change → s.store.tables.lookup table = some t → t.Wf → P t →
    computeAlteredTable t change = .ok t' →
    P t' ∧ (s.NoPending table ∨ ∀ row, Q t.schema row → Q t'.schema row)
  convert : ∀ s conn rows append visited t exprs values,
    Guard s (.execute conn (.insert rows) append visited) →
    s.store.tables.lookup rows.table = some t → exprs ∈ rows.rows →
    RowOf rows.table t.schema rows.columns exprs values → Q t.schema values
  push : ∀ t t' rows, t.Wf → P t → (∀ row ∈ rows, Q t.schema row) → t.AdmitsKeys rows →
    rows.foldlM Table.pushTrusted t = .ok t' → P t'

def Store.Holds (s : Store) (Q : TableSchema → Row → Prop) (table : String) (row : Row) : Prop :=
  ∃ t, s.tables.lookup table = some t ∧ Q t.schema row

structure Server.Keeps (s : Server) (P : Table → Prop) (Q : TableSchema → Row → Prop) : Prop where
  wf : s.store.Wf
  tables : s.store.All P
  pending : ∀ conn tx, s.tx.lookup conn = some tx → ∀ table, ∀ row ∈ tx.rows table,
    s.store.Holds Q table row

section Steps
variable {Guard : Server → Event → Prop} {P : Table → Prop} {Q : TableSchema → Row → Prop}
  {s s' : Server}
variable {conn : Nat} {append : Option Error} {visited : List String}
variable {table : String} {row : Row} {rows : Insert}

theorem Store.Grows.holds {s u : Store} (h : s.Grows u) (hrow : s.Holds Q table row) :
    u.Holds Q table row := by
  obtain ⟨t, ht, hQ⟩ := hrow
  obtain ⟨v, hv, hschema, -⟩ := h table t ht
  exact ⟨v, hv, hschema ▸ hQ⟩

theorem Server.Keeps.of_txKept (h : s.Keeps P Q) (hwf : s'.store.Wf) (htables : s'.store.All P)
    (htx : s.TxKept s') (hgrows : s.store.Grows s'.store) : s'.Keeps P Q := by
  refine ⟨hwf, htables, fun conn tx hconn table row hrow => ?_⟩
  rcases htx conn tx hconn with rfl | hconn
  · simp at hrow
  · exact hgrows.holds (h.pending conn tx hconn table row hrow)

theorem TableInvariant.insertRows (hinv : TableInvariant Guard P Q) {store store' : Store}
    {rows : List (String × Row)} (hwf : store.Wf) (htables : store.All P)
    (hrows : ∀ table, ∀ row ∈ rowsFor table rows, store.Holds Q table row)
    (hcheck : check store (.insertRows rows) = .ok true)
    (happly : apply store (.insertRows rows) = .ok store') : store'.Wf ∧ store'.All P := by
  obtain ⟨store₁, happly₁, -, hwf'⟩ := apply_of_check hwf hcheck
  cases happly.symm.trans happly₁
  have hadmits := ((check_insertRows_iff hwf.placed).mp hcheck).2
  refine ⟨hwf', fun name t' ht' => ?_⟩
  obtain ⟨hnone, hsome⟩ := pushRows_lookup happly name
  cases ht : store.tables.lookup name with
  | none => exact absurd (hnone ht) (by rw [ht']; simp)
  | some t =>
    obtain ⟨t₁, hfold, ht₁⟩ := hsome t ht
    cases ht'.symm.trans ht₁
    have hindex := (hwf name t ht).keyIndex
    refine hinv.push t t' _ (hwf name t ht) (htables name t ht) (fun row hrow => ?_)
      (fun i hi => ?_) hfold
    · obtain ⟨u, hu, hQ⟩ := hrows name row hrow
      cases ht.symm.trans hu
      exact hQ
    · rw [← hindex] at hi
      exact ⟨hadmits.keys_nodup ht hi ((hwf name t ht).placed.key_lt hi),
        fun row hrow key => hadmits.keys_fresh ht hi hrow⟩

theorem TableInvariant.converted (hinv : TableInvariant Guard P Q) {batch : List Row}
    (hg : Guard s (.execute conn (.insert rows) append visited)) (hbatch : rows.Batch s.store batch)
    (hrow : row ∈ batch) : s.store.Holds Q rows.table row := by
  obtain ⟨t, ht, hbatch⟩ := hbatch
  obtain ⟨exprs, hmem, hrowOf⟩ := Lists.forall₂_mem_right hbatch hrow
  exact ⟨t, ht, hinv.convert s conn rows append visited t exprs row hg ht hmem hrowOf⟩

theorem TableInvariant.altered (hinv : TableInvariant Guard P Q) {action : AlterAction}
    {change : SchemaChange} (h : s.Keeps P Q)
    (hg : Guard s (.execute conn (.alterTable table action) append visited))
    (hresolved : resolveAction action = .ok change)
    (happly : apply s.store (.alterTable table change) = .ok s'.store) (htx : s'.tx = s.tx) :
    s'.Keeps P Q := by
  obtain ⟨t, altered, ht, haltered, hstore⟩ := apply_alterTable_eq_ok happly
  have hwf := h.wf table t ht
  have hpost := computeAlteredTable_wf hwf change
  rw [haltered] at hpost
  obtain ⟨hP, hQ⟩ := hinv.alter s conn table action append visited change t altered hg hresolved ht
    hwf (h.tables table t ht) haltered
  refine ⟨hstore ▸ h.wf.setTable hpost table, hstore ▸ h.tables.setTable hP table, ?_⟩
  intro other tx hconn name row hrow
  rw [htx] at hconn
  obtain ⟨u, hu, hrowQ⟩ := h.pending other tx hconn name row hrow
  rw [hstore]
  by_cases heq : name = table
  · subst heq
    cases ht.symm.trans hu
    refine ⟨altered, lookup_setTable _ _ _, ?_⟩
    rcases hQ with hnone | hQ
    · have hmem : other ∈ s.tx.keys := Finmap.mem_keys.mpr (Finmap.mem_iff.mpr ⟨tx, hconn⟩)
      rw [hnone other hmem tx hconn] at hrow
      simp at hrow
    · exact hQ row hrowQ
  · exact ⟨u, by rw [lookup_setTable_of_ne _ _ _ heq, hu], hrowQ⟩

theorem TableInvariant.buffered (hinv : TableInvariant Guard P Q) {done rest : List Row}
    {tx : Transaction} (h : s.Keeps P Q)
    (hg : Guard s (.execute conn (.insert rows) append visited))
    (hopened : s.tx.lookup conn = some tx) (hbatch : done ≠ [] → rows.Batch s.store (done ++ rest))
    (hsame : s.store.Same s'.store)
    (htx : s'.tx = s.tx.insert conn (tx.pushAll (rows.pairs done))) :
    s'.Keeps P Q := by
  refine ⟨h.wf.same (fun _ _ => Table.Wf.same) hsame, h.tables.same hinv.same hsame, ?_⟩
  intro other tx' hother table row hrow
  apply hsame.grows.holds
  by_cases heq : other = conn
  · subst heq
    rw [htx, Finmap.lookup_insert, Option.some.injEq] at hother
    rw [← hother, Transaction.rows_pushAll, Insert.pairs, rowsFor_pairs] at hrow
    rcases List.mem_append.mp hrow with hold | hnew
    · exact h.pending other tx hopened table row hold
    · split at hnew
      · rename_i htable
        subst htable
        exact hinv.converted hg (hbatch (List.ne_nil_of_mem hnew)) (List.mem_append_left rest hnew)
      · simp at hnew
  · rw [htx, Finmap.lookup_insert_of_ne _ heq] at hother
    exact h.pending other tx' hother table row hrow

/-- A statement keeps an invariant that its parts keep. -/
theorem TableInvariant.step (hinv : TableInvariant Guard P Q) {e : Event} (h : s.Keeps P Q)
    (hg : Guard s e) (hstep : s.step e = some s') : s'.Keeps P Q := by
  cases Server.step_effect hstep with
  | unchanged same tx =>
    exact h.of_txKept (h.wf.same (fun _ _ => Table.Wf.same) same) (h.tables.same hinv.same same) tx
      same.grows
  | registered tables tx =>
    have hgrows : s.store.Grows s'.store :=
      fun name t ht => ⟨t, tables ▸ ht, rfl, List.Subset.refl _⟩
    exact h.of_txKept (fun name t ht => h.wf name t (tables ▸ ht))
      (fun name t ht => h.tables name t (tables ▸ ht)) (.of_eq tx) hgrows
  | @created conn append visited _ table defs columns primaryKey resolved check apply tx =>
    obtain ⟨hname, hdefined, hstore⟩ := apply_createTable_eq_ok check apply
    have hnew := hinv.new s conn table defs append visited columns primaryKey hg resolved hdefined
    exact h.of_txKept (hstore ▸ h.wf.setTable (Table.new_wf columns primaryKey) table)
      (hstore ▸ h.tables.setTable hnew table) (.of_eq tx) (hstore ▸ setTable_grows hname _)
  | altered resolved apply tx => exact hinv.altered h hg resolved apply tx
  | @inserted conn append visited _ rows batch store autocommit converted same check apply tx =>
    have hrows : ∀ table, ∀ row ∈ rowsFor table (rows.pairs batch), store.Holds Q table row := by
      intro table row hrow
      rw [Insert.pairs, rowsFor_pairs] at hrow
      split at hrow
      · rename_i heq
        subst heq
        exact same.grows.holds (hinv.converted hg converted hrow)
      · simp at hrow
    obtain ⟨hwf, htables⟩ := hinv.insertRows (h.wf.same (fun _ _ => Table.Wf.same) same)
      (h.tables.same hinv.same same) hrows check apply
    refine ⟨hwf, htables, fun other tx' hother table row hrow => ?_⟩
    have hpending := h.pending other tx' (tx ▸ hother) table row hrow
    exact (pushRows_grows apply).holds (same.grows.holds hpending)
  | buffered opened converted same tx => exact hinv.buffered h hg opened converted same tx
  | @committed conn append visited _ st tx opened order check apply kept =>
    have hrows : ∀ table, ∀ row ∈ rowsFor table (tx.commitRows visited),
        s.store.Holds Q table row := by
      intro table row hrow
      rw [Transaction.rowsFor_commitRows order] at hrow
      exact h.pending conn tx opened table row hrow
    obtain ⟨hwf, htables⟩ := hinv.insertRows h.wf h.tables hrows check apply
    exact h.of_txKept hwf htables kept (pushRows_grows apply)

/-- Every state reached from the empty store has the invariant. -/
theorem TableInvariant.run (hinv : TableInvariant Guard P Q)
    (h : Runs.Reach Server.step Guard (.start .empty) s) : s.Keeps P Q := by
  refine h.invariant ?_ fun _ _ _ hs hg hstep => hinv.step hs hg hstep
  refine ⟨all_empty, all_empty, fun conn tx htx => ?_⟩
  simp [Server.start] at htx

end Steps

def run (st : Statement) (visited : List String) : Event := .execute 1 st none visited

end MysqlRust
