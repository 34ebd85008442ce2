import MysqlRust.Foundation.Ledger
import MysqlRust.Server.SchemaChanges
import MysqlRust.Storage.Overlay

/-! # Inserting transactions are serializable

Every table holds the rows it had at the start, those of the released locks in the order of the
releases, and those of the holder of its lock. The rows of a release are those of the `INSERT`s its
connection answers for, which are the ones its client has been told are committed.
-/
namespace MysqlRust

open List Function

section

def Db.credited (s : Db) (table : String) : List Row :=
  (s.released.filter fun r => r.table = table).flatMap Released.rows

/-- The `INSERT`s into a table a connection has answered for, in the order of its releases. -/
def Db.answered (s : Db) (i : Nat) (table : String) : List Insert :=
  (s.released.filter fun r => r.conn = i ∧ r.table = table).flatMap Released.inserts

def World.applied (w : World) (i : Nat) (table : String) : List Row :=
  rowsFor table (w.threads i).state.applied

def World.held (w : World) : String → List Row := Ledger.held w.shared.owner w.applied

/-- Every applied row belongs to a released lock or to the holder of the lock. -/
def World.Balanced (w : World) : Prop :=
  Ledger.Balanced (rowsFor · w.shared.batches.flatten) w.shared.credited w.shared.owner w.applied

variable {w : World} {i : Nat} {s : Db} {l : Conn} {task : Option (Program QueryResult)}

theorem Db.credited_append (s : Db) (r : Released) :
    Db.credited { s with released := s.released ++ [r] } =
      update s.credited r.table (s.credited r.table ++ r.rows) := by
  funext other
  unfold Db.credited
  rw [filter_append, flatMap_append]
  by_cases heq : other = r.table
  · subst heq
    simp
  · simp [heq, Ne.symm heq]

theorem Db.answered_append (s : Db) (r : Released) (table : String) :
    Db.answered { s with released := s.released ++ [r] } i table =
      s.answered i table ++ if r.conn = i ∧ r.table = table then r.inserts else [] := by
  unfold Db.answered
  rw [filter_append, flatMap_append]
  by_cases heq : r.conn = i ∧ r.table = table
  · simp [heq]
  · simp [heq]

theorem World.applied_set (w : World) (i : Nat) (s : Db) (l : Conn)
    (task : Option (Program QueryResult)) :
    World.applied (w.set i s l task) = update w.applied i (rowsFor · l.applied) := by
  funext j table
  unfold World.applied
  by_cases heq : j = i
  · subst heq
    rw [Threads.World.set_same, update_self]
  · rw [Threads.World.set_of_ne w i s l task heq, update_of_ne heq]

theorem World.applied_set_same (h : l.applied = (w.threads i).state.applied) :
    World.applied (w.set i s l task) = w.applied := by
  rw [World.applied_set, h]
  exact update_eq_self i w.applied

theorem World.Balanced.keep (h : w.Balanced) (howner : s.owner = w.shared.owner)
    (hreleased : s.released = w.shared.released) (hbatches : s.batches = w.shared.batches)
    (happlied : l.applied = (w.threads i).state.applied) : World.Balanced (w.set i s l task) := by
  have hcredited : s.credited = w.shared.credited := by
    funext table
    rw [Db.credited, hreleased]
    rfl
  unfold World.Balanced
  rw [World.applied_set_same happlied, Threads.World.set_shared, howner, hbatches, hcredited]
  exact h

theorem rowsFor_dropped (table : String) (rows : List (String × Row)) :
    (rowsFor · (rows.filter fun p => p.1 ≠ table)) = update (rowsFor · rows) table [] := by
  funext other
  by_cases heq : other = table
  · subst heq
    rw [update_self, rowsFor_eq_nil]
    intro p hp
    simpa using (mem_filter.mp hp).2
  · rw [update_of_ne heq, rowsFor_filter heq]

variable {m : Mode} {o : Operation} {s' : Db} {l' : Conn}

/-- Rows enter a table under its lock and are settled when it is released. -/
theorem Operation.Effect.balanced (heffect : o.Effect i w.shared (w.threads i).state s' l')
    (howes : o.Owes m i w.shared (w.threads i).state) (h : w.Balanced) :
    World.Balanced (w.set i s' l' task) := by
  cases heffect with
  | quiet _ _ _ applied => exact h.keep rfl rfl rfl applied
  | submitted | received | refused => exact h.keep rfl rfl rfl rfl
  | @locked table _ free _ applied =>
    have hacquire := h.acquire free i
    unfold World.Balanced
    rwa [World.applied_set_same applied]
  | @unlocked table why =>
    have hrelease := h.release howes.1
    unfold World.Balanced
    rw [World.applied_set, Conn.dropLock, rowsFor_dropped]
    rw [World.applied, ← Db.credited_append w.shared ⟨i, table, _, _⟩] at hrelease
    exact hrelease
  | @applied c store result =>
    obtain ⟨-, -, hadmits⟩ := howes
    have htotal : (rowsFor · (w.shared.batches ++ [c.inserts]).flatten) =
        fun table => rowsFor table w.shared.batches.flatten ++ rowsFor table c.inserts := by
      funext table
      simp
    have hentries : (rowsFor · ((w.threads i).state.applied ++ c.inserts)) =
        fun table => w.applied i table ++ rowsFor table c.inserts := by
      funext table
      exact rowsFor_append _ _ _
    unfold World.Balanced
    rw [World.applied_set]
    show Ledger.Balanced (rowsFor · (w.shared.batches ++ [c.inserts]).flatten) w.shared.credited
      w.shared.owner (update w.applied i (rowsFor · ((w.threads i).state.applied ++ c.inserts)))
    rw [htotal, hentries]
    exact h.append fun table hne => (hadmits table hne).1

/-- The rows of every release are those of the `INSERT`s answered for, and every connection
keeps count of the latter. -/
structure World.Answers (store : Store) (w : World) : Prop where
  converted : ∀ r ∈ w.shared.released, ConvertedRows store r.inserts r.rows
  answered : ∀ i, w.shared.answered i = (w.threads i).state.answered

theorem World.Answers.keep {store : Store} (h : w.Answers store)
    (hreleased : s.released = w.shared.released)
    (hanswered : l.answered = (w.threads i).state.answered) :
    World.Answers store (w.set i s l task) where
  converted := by
    rw [Threads.World.set_shared, hreleased]
    exact h.converted
  answered j := by
    have hshared : s.answered j = w.shared.answered j := by
      unfold Db.answered
      rw [hreleased]
    rw [Threads.World.set_shared, hshared, h.answered]
    by_cases heq : j = i
    · subst heq
      rw [Threads.World.set_same, hanswered]
    · rw [Threads.World.set_of_ne w i s l task heq]

theorem Operation.Effect.answers (heffect : o.Effect i w.shared (w.threads i).state s' l')
    (hwhole : m.whole) (howes : o.Owes m i w.shared (w.threads i).state) (h : w.Answers m.store) :
    World.Answers m.store (w.set i s' l' task) := by
  cases heffect with
  | quiet _ _ _ _ answered => exact h.keep rfl answered
  | locked _ _ _ answered => exact h.keep rfl answered
  | submitted | received | refused | applied => exact h.keep rfl rfl
  | @unlocked table why =>
    constructor
    · exact forall_mem_append.mpr ⟨h.converted, forall_mem_singleton.mpr (howes.2.2 hwhole)⟩
    · intro j
      funext other
      have happend := Db.answered_append (i := j) w.shared
        ⟨i, table, (w.threads i).state.answers table why, rowsFor table (w.threads i).state.applied⟩
        other
      refine happend.trans ?_
      rw [h.answered]
      by_cases heq : j = i
      · subst heq
        rw [Threads.World.set_same]
        show _ = update (w.threads j).state.answered table _ other
        by_cases htable : other = table
        · subst htable
          rw [update_self, if_pos ⟨rfl, rfl⟩]
        · rw [update_of_ne htable, if_neg fun hand => htable hand.2.symm, append_nil]
      · rw [Threads.World.set_of_ne w i _ _ _ heq, if_neg fun hand => heq hand.1.symm, append_nil]

def Table.KeysUnique (t : Table) : Prop :=
  ∀ i, t.schema.keyIndex = some i → (t.rows.map fun row => row[i]?).Nodup

def Table.Keyed (t : Table) : Prop := t.Built ∧ t.KeysUnique

theorem Table.KeysUnique.same {t u : Table} (hsame : t.Same u) (h : t.KeysUnique) : u.KeysUnique := by
  unfold KeysUnique at h ⊢
  rwa [← hsame.schema, ← hsame.rows]

theorem Table.KeysUnique.append {t t' : Table} {rows : List Row} (h : t.KeysUnique) (hbuilt : t.Built)
    (hkeys : t.AdmitsKeys rows) (hschema : t'.schema = t.schema) (hrows : t'.rows = t.rows ++ rows) :
    t'.KeysUnique := by
  intro i hi
  rw [hschema] at hi
  obtain ⟨hnodup, hnew⟩ := hkeys i hi
  rw [hrows, map_append, nodup_append]
  refine ⟨h i hi, hnodup, ?_⟩
  rintro a ha b hb rfl
  obtain ⟨row, hrow, rfl⟩ := mem_map.mp ha
  obtain ⟨row', hrow', heq⟩ := mem_map.mp hb
  obtain ⟨key, hcell, hmem⟩ := hbuilt.faithful.cells i (hbuilt.placed.keyIndex.trans hi) row hrow
  exact hnew row' hrow' key (heq.trans hcell) hmem

theorem Table.Keyed.same {t u : Table} (hsame : t.Same u) (h : t.Keyed) : u.Keyed := by
  obtain ⟨⟨v, hv, hsame'⟩, hunique⟩ := h
  exact ⟨⟨v, hv, hsame'.trans hsame⟩, hunique.same hsame⟩

theorem Operation.Effect.keyed (heffect : o.Effect i s l s' l') (howes : o.Owes m i s l)
    (hschemas : o.changesSchemas = false) (h : s.store.All Table.Keyed) :
    s'.store.All Table.Keyed := by
  cases heffect with
  | quiet same => exact h.same (fun _ _ => Table.Keyed.same) same
  | locked | unlocked | submitted | received | refused => exact h
  | @applied c store result =>
    obtain ⟨hcreates, halters⟩ : c.creates = none ∧ c.alters = none := by
      simpa [Operation.changesSchemas] using hschemas
    obtain ⟨-, -, hadmits⟩ := howes
    have hbuilt : store.Built :=
      apply_all Table.built_grown (fun name t ht => (h name t ht).1) result
    intro name t' ht'
    obtain ⟨t, ht, hschema, hrows⟩ := (apply_appends hcreates halters result).of_lookup ht'
    obtain ⟨htbuilt, hunique⟩ := h name t ht
    have hkeys : t.AdmitsKeys (rowsFor name c.inserts) := by
      by_cases hnone : rowsFor name c.inserts = []
      · rw [hnone]
        exact (Table.AdmitsRows.nil t).keys
      · obtain ⟨-, u, hu, hrows⟩ := hadmits name hnone
        cases ht.symm.trans hu
        exact hrows.keys
    exact ⟨hbuilt name t' ht', hunique.append htbuilt hkeys hschema hrows⟩

variable {ex : Executor} {policy : SyncPolicy} {store : Store} {file : List UInt8} {w' : World}
variable {e : MachineEvent}

/-- No schema changes, and no `INSERT` of a transaction fails after some of its rows. -/
def InsertsOnly (w : World) (e : MachineEvent) : Prop := NoSchemaChange w e ∧ InsertsWhole w e
  deriving Decidable

theorem NoSchemaChange.altersUnlocked (h : NoSchemaChange w e) : AltersUnlocked w e := by
  cases e with
  | start | finish | outside => trivial
  | perform i choice =>
    intro c hc table htable
    unfold World.applies at hc
    split at hc
    · rename_i c' hnext
      cases hc
      obtain ⟨-, halters⟩ := h.apply hnext
      rw [halters] at htable
      cases htable
    · cases hc

abbrev wholeMode (store : Store) : Mode := ⟨True, False, store⟩

theorem InsertsOnly.allows (h : InsertsOnly w e ∧ w.ReadsStates ex store) :
    (discipline (wholeMode store) ex policy).Allows w e :=
  discipline_allows h.1.1.altersUnlocked (fun _ => ⟨h.1.2, h.2.tables⟩) False.elim

theorem step_accounts (hholds : (discipline (wholeMode store) ex policy).Holds w)
    (h : w.Balanced ∧ w.Answers store) (hstep : (machine ex policy).step w e = some w') :
    w'.Balanced ∧ w'.Answers store := by
  obtain ⟨hbalanced, hanswers⟩ := h
  cases Threads.step_steps hstep with
  | start _ => exact ⟨hbalanced.keep rfl rfl rfl rfl, hanswers.keep rfl rfl⟩
  | perform htask hrun =>
    have heffect := Operation.run_effect hrun
    exact ⟨heffect.balanced (hholds.pre htask) hbalanced,
      heffect.answers (m := wholeMode store) trivial (hholds.pre htask) hanswers⟩
  | finish _ => exact ⟨hbalanced.keep rfl rfl rfl rfl, hanswers.keep rfl rfl⟩
  | outside hwrites =>
    cases Db.writerStep_writes hwrites <;> exact ⟨hbalanced, hanswers.converted, hanswers.answered⟩

theorem step_keyed (hholds : (discipline (wholeMode store) ex policy).Holds w)
    (h : w.shared.store.All Table.Keyed) (hguard : NoSchemaChange w e)
    (hstep : (machine ex policy).step w e = some w') : w'.shared.store.All Table.Keyed := by
  cases Threads.step_steps hstep with
  | start _ => exact h
  | @perform i choice o k r s' l' htask hrun =>
    have hschemas : o.changesSchemas = false := by
      simpa [NoSchemaChange, next_eq htask] using hguard
    exact (Operation.run_effect hrun).keyed (hholds.pre htask) hschemas h
  | finish _ => exact h
  | outside hwrites => cases Db.writerStep_writes hwrites <;> exact h

/-- At every moment a table holds its initial rows, the rows of the releases of its lock in
that order, and what the holder of the lock has applied, which is nothing while no statement of
the holder is running. The rows of a release are those of the `INSERT`s it answers for; once its
statements have returned, a connection has answered for exactly the `INSERT`s its client has been
told are committed, in order. Keys stay unique. -/
theorem inserts_serializable (hwf : store.Wf) (hbuilt : store.Built)
    (hrun : Runs.Reach (machine ex policy).step InsertsOnly (World.start store file) w) :
    (∀ table t₀, store.tables.lookup table = some t₀ →
      ∃ t, w.shared.store.tables.lookup table = some t ∧ t.schema = t₀.schema ∧
        t.rows = t₀.rows ++ w.shared.credited table ++ w.held table) ∧
      (∀ table, (∀ i, w.shared.owner table = some i → (w.threads i).task = none) →
        w.held table = []) ∧
      (∀ r ∈ w.shared.released, ConvertedRows store r.inserts r.rows) ∧
      (∀ i, (w.threads i).task = none → ∀ table, w.shared.answered i table =
        insertsInto table (w.threads i).state.work.committed) ∧
      (store.All Table.KeysUnique → w.shared.store.All Table.KeysUnique) := by
  have hranged : store.All Table.Ranged := fun name t ht => Table.Built.ranged (hbuilt name t ht)
  have hstart : (discipline (wholeMode store) ex policy).Holds (World.start store file) :=
    start_holds hwf hranged file
  have hreads := readsStates_of_run (Runs.Reach.mono hrun fun _ _ h => h.1)
  have hguarded := Runs.Reach.guarded hrun (P := World.ReadsStates ex store) readsStates_start
    fun _ _ _ h hguard hstep => step_readsStates h hguard.1 hstep
  have hholds := discipline_sound.run hstart (Runs.Reach.mono hguarded fun _ _ => InsertsOnly.allows)
  obtain ⟨hbalanced, hanswers⟩ : w.Balanced ∧ w.Answers store := by
    refine discipline_sound.invariant (P := fun w : World => w.Balanced ∧ w.Answers store)
      hguarded
      (fun _ _ => InsertsOnly.allows) hstart ?_ fun w e w' hholds h _ => step_accounts hholds h
    exact ⟨⟨fun _ => rfl, fun _ _ _ => rfl⟩, nofun, fun _ => rfl⟩
  refine ⟨fun table t₀ ht₀ => ?_, fun table hrest => ?_, hanswers.converted, fun i hidle table => ?_,
    fun hunique => ?_⟩
  · obtain ⟨t, ht, hschema, hrows⟩ := hreads.tables.there table t₀ ht₀
    refine ⟨t, ht, hschema, ?_⟩
    rw [hrows, hbalanced.balance table, append_assoc]
    rfl
  · cases howner : w.shared.owner table with
    | none => exact Ledger.held_of_free howner
    | some i =>
      have hidle : Conn.Idle (wholeMode store) i w.shared (w.threads i).state :=
        hholds.idle (hrest i howner)
      refine (Ledger.held_of_owner howner).trans ?_
      rw [World.applied, hidle.steady.applied]
      rfl
  · have hidle : Conn.Idle (wholeMode store) i w.shared (w.threads i).state := hholds.idle hidle
    rw [hanswers.answered]
    exact hidle.accounted.answered table
  · have hkeyed : store.All Table.Keyed := fun name t ht => ⟨hbuilt name t ht, hunique name t ht⟩
    have hend : w.shared.store.All Table.Keyed := by
      refine discipline_sound.invariant (P := fun w => w.shared.store.All Table.Keyed) hguarded
        (fun _ _ => InsertsOnly.allows) hstart hkeyed ?_
      exact fun w e w' hholds h hguard => step_keyed hholds h hguard.1.1
    exact fun name t ht => (hend name t ht).2

end

theorem keyedAndPlain_wf : keyedAndPlain.Wf :=
  (all_empty.setTable (Table.new_wf _ _) "t").setTable (Table.new_wf _ _) "u"

def insertTwoSchedule (a b : Int64) : List MachineEvent :=
  .start 1 (.execute .begin) :: steps 1 2 ++ [.finish 1] ++
    .start 1 (.execute (.insert ⟨"t", none, [[.integer a], [.integer b]]⟩)) :: steps 1 6

def serialSchedule : List MachineEvent :=
  insertTwoSchedule 1 2 ++ [.start 2 (insertInto "t" 3)] ++ commitSchedule "t" ++ logOne ++
    steps 1 3 ++ [.finish 1] ++ steps 2 4 ++ logOne ++ steps 2 3 ++ [.finish 2]

theorem inserts_serializable_waiting :
    ∃ w : World, runSchedule keyedAndPlain serialSchedule = some w ∧
      (∀ table, w.shared.answered 1 table =
        insertsInto table [⟨"t", none, [[.integer 1], [.integer 2]]⟩]) ∧
      (∀ table, w.shared.answered 2 table = insertsInto table [⟨"t", none, [[.integer 3]]⟩]) ∧
      (∀ r ∈ w.shared.released, ConvertedRows keyedAndPlain r.inserts r.rows) ∧
      ∃ t, w.shared.store.tables.lookup "t" = some t ∧ t.rows = [[.int 1], [.int 2], [.int 3]] ∧
        t.KeysUnique := by
  have hallowed : Runs.Allowed (machine plainExecutor .always).step InsertsOnly
      (World.start keyedAndPlain []) serialSchedule := by
    decide +kernel
  have hstate : ∃ w ∈ runSchedule keyedAndPlain serialSchedule,
      w.shared.credited "t" = [[.int 1], [.int 2], [.int 3]] ∧ w.shared.owner "t" = none ∧
        (w.threads 1).task.isNone ∧ (w.threads 2).task.isNone := by
    decide +kernel
  have hwork : (runSchedule keyedAndPlain serialSchedule).map
      (fun w => ((w.threads 1).state.work.committed, (w.threads 2).state.work.committed)) =
        some ([⟨"t", none, [[.integer 1], [.integer 2]]⟩], [⟨"t", none, [[.integer 3]]⟩]) := by
    rfl
  have hunique : keyedAndPlain.All Table.KeysUnique := by
    have hnew : ∀ columns primaryKey, (Table.new columns primaryKey).KeysUnique := by
      intro columns primaryKey i _
      exact .nil
    exact (all_empty.setTable (hnew _ _) "t").setTable (hnew _ _) "u"
  obtain ⟨w, hw, hcredited, hfree, hidle₁, hidle₂⟩ := hstate
  rw [hw] at hwork
  obtain ⟨hwork₁, hwork₂⟩ : (w.threads 1).state.work.committed = _ ∧
    (w.threads 2).state.work.committed = _ := Prod.mk.inj (Option.some.inj hwork)
  obtain ⟨hrows, hheld, hconverted, hanswered, hkeys⟩ :=
    inserts_serializable keyedAndPlain_wf keyedAndPlain_built (hallowed.reach hw)
  obtain ⟨t, ht, -, hrows⟩ := hrows "t" (Table.new [⟨"id", .int, false, false⟩] (some "id")) rfl
  refine ⟨w, hw, fun table => ?_, fun table => ?_, hconverted, t, ht, ?_, hkeys hunique "t" t ht⟩
  · rw [hanswered 1 (Option.isNone_iff_eq_none.mp hidle₁), hwork₁]
  · rw [hanswered 2 (Option.isNone_iff_eq_none.mp hidle₂), hwork₂]
  · rw [hrows, hcredited, hheld "t" (by simp [hfree])]
    rfl

/-- The second row of an `INSERT` repeats the key of the first: the statement fails, but the
`COMMIT`, which answers for no `INSERT`, writes its first row. -/
theorem failed_insert_is_committed : ∃ w ∈ runSchedule keyedAndPlain (insertTwoSchedule 1 1),
      (World.result w 1).map Outcome.isOk = some false ∧
      ∃ w' ∈ (commitSchedule "t" ++ logOne ++ steps 1 3).foldlM
        (machine plainExecutor .always).step w,
        World.result w' 1 = some (.ok (.affected 0)) ∧ w'.shared.owner "t" = none ∧
        (w'.shared.answered 1 "t").isEmpty ∧ w'.shared.credited "t" = [[.int 1]] ∧
        (w'.shared.store.tables.lookup "t").map Table.rows = some [[.int 1]] := by
  decide +kernel

end MysqlRust
