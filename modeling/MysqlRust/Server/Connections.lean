import MysqlRust.Server.ReadCommitted
import MysqlRust.Server.Reading

/-! # Every connection keeps to the discipline

Each statement, run from the state the connection is in between two statements, ends in such a
state again. So connections keep to the discipline together, in every interleaving.
-/
namespace MysqlRust

open Threads Outcome Contract List Function Option

section
variable {m : Mode} {i : Nat} {s : Db} {l l₀ : Conn} {r : Result QueryResult} {work : Work}

theorem Conn.Steady.like (h : l₀.Steady) (hlike : l.Like l₀) : l.Steady where
  nodup := hlike.locked ▸ h.nodup
  closed htx := by
    rw [hlike.locked]
    exact h.closed (hlike.tx ▸ htx)
  applied := hlike.applied.trans h.applied

theorem Conn.Accounted.like (h : l₀.Accounted m work) (hlike : l.Like l₀) :
    l.Accounted m work where
  opened := by rw [hlike.tx, h.opened]
  locked := by
    rw [hlike.locked]
    exact h.locked
  pending hwhole table := by
    rw [hlike.pending]
    exact h.pending hwhole table
  answered table := by rw [hlike.answered, h.answered]

theorem Conn.Like.commits (h : l.Like l₀) : l.commits ↔ l₀.commits := by
  rw [Conn.commits, Conn.commits, h.current]

theorem Ready.done (h : Ready i l₀.locked l₀ s l) (hsteady : l₀.Steady)
    (haccounted : l₀.Accounted m (l₀.work.after (l₀.current, r)))
    (hsafe : m.quiet → r ≠ .panic)
    (hcommitted : l₀.commits → r.isOk = true ∨ ∃ e, r = .err e ∧ l.ack = some (.err e)) :
    l.Done m i r s where
  ready := ⟨.refl l, h.like.locked ▸ h.owns, h.phase⟩
  steady := hsteady.like h.like
  accounted := by
    rw [h.like.work, h.like.current]
    exact haccounted.like h.like
  safe := hsafe
  committed hcommits := hcommitted (h.like.commits.mp hcommits)

theorem Ready.done_ok {c : Conn} {result : QueryResult} (h : Ready i c.locked c s l)
    (hsteady : c.Steady) (haccounted : c.Accounted m (c.work.after (c.current, .ok result))) :
    l.Done m i (.ok result) s :=
  h.done hsteady haccounted (fun _ => nofun) fun _ => .inl rfl

theorem Ready.done_err {c : Conn} {e : Error} (h : Ready i c.locked c s l) (hsteady : c.Steady)
    (haccounted : c.Accounted m (c.work.after (c.current, .err e))) (hcommits : ¬ c.commits) :
    l.Done m i (.err e) s :=
  h.done hsteady haccounted (fun _ => nofun) fun h => absurd h hcommits

/-- How a statement fails: with an error, or, if the run is not quiet and nothing is being
committed, with a panic that leaves the connection as it was. -/
def Fails (m : Mode) (i : Nat) (l₀ : Conn) (s : Db) (l : Conn) : Option Error → Prop
  | some e => l.Done m i (.err e) s
  | none => (¬ m.quiet ∧ ¬ l₀.commits) ∧ Ready i l₀.locked l₀ s l

structure Conn.Starts (m : Mode) (st : Statement) (l : Conn) : Prop where
  steady : l.Steady
  accounted : l.Accounted m l.work
  statement : l.statement = []
  current : l.current = some st

theorem Conn.Starts.not_commits {st : Statement} (h : l.Starts m st) (hcommit : st ≠ .commit)
    (hbegin : st ≠ .begin) : ¬ l.commits := by
  rw [Conn.commits, h.current]
  rintro (heq | heq)
  · exact hcommit (some.inj heq)
  · exact hbegin (some.inj heq)

theorem Conn.Starts.settled {st : Statement} {r : Result QueryResult} (h : l.Starts m st)
    (hwork : l.work.after (some st, r) = l.work) :
    l.Accounted m (l.work.after (l.current, r)) := by
  rw [h.current, hwork]
  exact h.accounted

variable {ex : Executor} {policy : SyncPolicy}

theorem Conn.Steady.ended (why : Release) (statement : List (String × Row)) :
    (l₀.ended why statement).Steady where
  nodup := .nil
  closed _ := rfl
  applied := rfl

/-- A transaction that is not committed leaves nothing behind. -/
theorem Conn.Accounted.dropped (h : l₀.Accounted m work) (why : Release)
    (hwhy : ∀ table, l₀.answers table why = []) (statement : List (String × Row)) :
    (l₀.ended why statement).Accounted m { work with pending := none } where
  opened := rfl
  locked := nofun
  pending _ _ := .nil
  answered table := by
    show l₀.answered table ++ (if table ∈ l₀.locked then l₀.answers table why else []) = _
    rw [hwhy, ite_self, append_nil]
    exact h.answered table

/-- A committed transaction has answered for all of its `INSERT`s. -/
theorem Conn.Accounted.ended (h : l₀.Accounted m l₀.work) (statement : List (String × Row)) :
    (l₀.ended (.commit true) statement).Accounted m
      ⟨l₀.work.committed ++ l₀.work.undecided, none⟩ where
  opened := rfl
  locked := nofun
  pending _ _ := .nil
  answered table := by
    show l₀.answered table ++
        (if table ∈ l₀.locked then insertsInto table l₀.work.undecided else []) =
      insertsInto table (l₀.work.committed ++ l₀.work.undecided)
    rw [h.answered, insertsInto, insertsInto, insertsInto, filter_append]
    split
    · rfl
    · rename_i hunlocked
      have hnone : l₀.work.undecided.filter (fun rows => rows.table = table) = [] := by
        rw [filter_eq_nil_iff]
        intro rows hrows heq
        exact hunlocked (of_decide_eq_true heq ▸ h.locked rows hrows)
      rw [hnone]

theorem fails_of_refused {e : Option Error} {s : Db} {l : Conn} (haccounted : l₀.Accounted m l₀.work)
    (hcommits : l₀.commits) (h : CommitFails i l₀ e s l) : Fails m i l₀ s l e := by
  obtain ⟨x, rfl, hack, statement, hready⟩ := h
  refine Ready.done hready (.ended _ statement) ?_ (fun _ => nofun) fun _ => .inr ⟨x, rfl, hack⟩
  have hdropped := haccounted.dropped (.commit false) (fun _ => rfl) statement
  rcases hcommits with hcurrent | hcurrent
  all_goals
    show (l₀.ended (.commit false) statement).Accounted m (l₀.work.after (l₀.current, .err x))
    rw [hcurrent]
    exact hdropped

theorem commit_statement (h : l₀.Starts m .commit) :
    Obeys m ex policy i (Ready i l₀.locked l₀) commitTransaction
      (fun _ s l => l.Done m i (.ok (.affected 0)) s) (fun e s l => Fails m i l₀ s l e) := by
  have hcommits : l₀.commits := .inl h.current
  refine (commitTransaction_keeps h.steady h.accounted h.statement hcommits).mono (fun _ _ h => h) ?_
    fun _ _ _ => fails_of_refused h.accounted hcommits
  rintro _ s l ⟨statement, hready⟩
  refine Ready.done_ok hready (.ended _ statement) ?_
  show (l₀.ended (.commit true) statement).Accounted m (l₀.work.after (l₀.current, .ok _))
  rw [h.current]
  exact h.accounted.ended statement

def Conn.opened (l : Conn) : Conn := { l with tx := some .new, locked := [], statement := [] }

theorem Conn.Steady.opened (happlied : l₀.applied = []) : l₀.opened.Steady where
  nodup := .nil
  closed htx := absurd htx (some_ne_none _)
  applied := happlied

theorem Conn.Accounted.begun (h : l₀.Accounted m work) :
    l₀.opened.Accounted m { work with pending := some [] } where
  opened := rfl
  locked := nofun
  pending _ _ := .nil
  answered := h.answered

theorem begin_statement (h : l₀.Starts m .begin) :
    Obeys m ex policy i (Ready i l₀.locked l₀) beginTransaction
      (fun _ s l => l.Done m i (.ok (.affected 0)) s) (fun e s l => Fails m i l₀ s l e) := by
  have hcommits : l₀.commits := .inr h.current
  refine .bind (Q := fun _ s l =>
    ∃ statement, Ready i [] (l₀.ended (.commit true) statement) s l)
    ?_ fun _ => .of_exists fun statement => ?_
  · exact (commitTransaction_keeps h.steady h.accounted h.statement hcommits).fail
      fun _ _ _ => fails_of_refused h.accounted hcommits
  · refine open_triple.post fun _ s l hready => ?_
    refine Ready.done_ok (c := (l₀.ended (.commit true) statement).opened) hready (.opened rfl) ?_
    show (l₀.ended (.commit true) statement).opened.Accounted m (l₀.work.after (l₀.current, .ok _))
    rw [h.current]
    exact (h.accounted.ended statement).begun

theorem dropTransaction_keeps (hsteady : l₀.Steady) {E : Option Error → Db → Conn → Prop} :
    Obeys m ex policy i (Ready i l₀.locked l₀) dropTransaction
      (fun _ => Ready i [] (l₀.ended .abandoned l₀.statement)) E := by
  refine .bind take_triple fun taken => ?_
  cases taken with
  | none =>
    refine .pure fun s l _ h => ?_
    cases h with
    | none htx hready => exact hready.ended hsteady htx _
  | some p =>
    obtain ⟨rows, locks⟩ := p
    refine .pre (P := fun s l => locks = l₀.locked ∧
      Ready i l₀.locked l₀.closed s l) (Triple.of_fact fun heq => ?_) ?_
    · subst heq
      have happlied : l₀.closed.applied = [] := hsteady.applied
      have hrelease : Obeys m ex policy i
          (fun s l => Ready i l₀.locked l₀.closed s l ∧ True) (releaseAll .abandoned l₀.locked)
          (fun _ s l => Ready i [] (l₀.ended .abandoned l₀.statement) s l ∧ True) E := by
        refine releaseAll_triple (F := fun _ => True) hsteady.nodup (fun _ => rfl)
          (fun _ table _ => ?_) fun p hp => ?_
        · rw [happlied]
          exact .nil
        · rw [happlied] at hp
          cases hp
      exact hrelease.mono (fun _ _ h => ⟨h, trivial⟩) (fun _ _ _ h => h.1) fun _ _ _ h => h
    · intro s l h
      cases h with
      | some _ hready _ => exact ⟨rfl, hready⟩

variable {insert : Insert}
variable {table : String}

theorem insert_not_commits (h : l₀.Starts m (.insert insert)) : ¬ l₀.commits :=
  h.not_commits nofun nofun

theorem insertsInto_append (inserts inserts' : List Insert) :
    insertsInto table (inserts ++ inserts') = insertsInto table inserts ++ insertsInto table inserts' :=
  filter_append inserts inserts'

/-- Releasing a lock changes nothing for a connection that has applied no rows and answers for
none. -/
theorem Ready.kept {why : Release} {s : Db} {l : Conn} (h : Ready i [] (l₀.dropLock table why) s l)
    (happlied : l₀.applied = []) (hanswers : l₀.answers table why = []) : Ready i [] l₀ s l := by
  refine ⟨{ h.like with applied := ?_, answered := ?_ }, h.owns, h.phase⟩
  · rw [h.like.applied, Conn.dropLock, happlied]
    rfl
  · rw [h.like.answered, Conn.dropLock, hanswers, append_nil]
    exact update_eq_self table l₀.answered

theorem unlockStatement_triple (why : Release) {E : Option Error → Db → Conn → Prop}
    (hpending : l₀.pending table = [])
    (hcredit : m.whole → ConvertedRows m.store (l₀.answers table why) (rowsFor table l₀.applied)) :
    Obeys m ex policy i (Ready i [table] l₀) (perform (.unlock table why))
      (fun _ => Ready i [] (l₀.dropLock table why)) E :=
  (unlock_triple (F := fun _ => True) not_mem_nil hpending hcredit).mono
    (fun _ _ h => ⟨h, trivial⟩) (fun _ _ _ h => h.1) fun _ _ _ h => h

section Released
variable {batch : List Row}

/-- The connection after an autocommit `INSERT`. -/
def Conn.inserted (l : Conn) (insert : Insert) (batch : List Row) : Conn :=
  (l.after (.insertRows (insert.pairs batch))).dropLock insert.table (.statement true)

theorem Work.after_autocommit {r : QueryResult} (h : work.pending = none) :
    work.after (some (.insert insert), .ok r) =
      { work with committed := work.committed ++ [insert] } := by
  simp only [Work.after, h]

theorem Work.after_insert {before : List Insert} {r : QueryResult}
    (h : work.pending = some before) :
    work.after (some (.insert insert), .ok r) =
      { work with pending := some (before ++ [insert]) } := by
  simp only [Work.after, h]

theorem Conn.answers_statement (h : l₀.current = some (.insert insert)) (table : String) :
    l₀.answers table (.statement true) = insertsInto table [insert] := by
  unfold Conn.answers
  rw [h]

theorem Conn.Steady.inserted (h : l₀.Steady) : (l₀.inserted insert batch).Steady where
  nodup := h.nodup
  closed := h.closed
  applied := by
    show (l₀.applied ++ insert.pairs batch).filter (fun p => p.1 ≠ insert.table) = []
    rw [h.applied, nil_append, filter_eq_nil_iff]
    intro p hp
    obtain ⟨row, -, rfl⟩ := mem_map.mp hp
    simp

theorem Conn.Accounted.inserted (h : l₀.Accounted m work)
    (hcurrent : l₀.current = some (.insert insert)) :
    (l₀.inserted insert batch).Accounted m { work with committed := work.committed ++ [insert] } where
  opened := h.opened
  locked := h.locked
  pending := h.pending
  answered table := by
    have hanswers := (l₀.after (.insertRows (insert.pairs batch))).answers_statement hcurrent
    show update l₀.answered insert.table (l₀.answered insert.table ++
      (l₀.after (.insertRows (insert.pairs batch))).answers insert.table (.statement true)) table = _
    rw [insertsInto_append, ← h.answered]
    by_cases heq : table = insert.table
    · subst heq
      rw [update_self, hanswers]
    · have hother : insertsInto table [insert] = [] := by
        simp [insertsInto, Ne.symm heq]
      rw [update_of_ne heq, hother, append_nil]

end Released

/-- An `INSERT` outside a transaction gives its lock back however it ends. -/
theorem insertAutocommit_statement (h : l₀.Starts m (.insert insert)) (htx : l₀.tx = none) :
    Obeys m ex policy i (Ready i l₀.locked l₀) (insertAutocommit ex insert)
      (fun r s l => l.Done m i (.ok r) s) (fun e s l => Fails m i l₀ s l e) := by
  have hlocked : l₀.locked = [] := h.steady.closed htx
  have hcommits := insert_not_commits h
  have hpending : l₀.pending insert.table = [] := by
    simp [Conn.pending, htx]
  have hlock : Obeys m ex policy i (Ready i l₀.locked l₀)
      (perform (.lock insert.table)) (fun _ => Ready i [insert.table] l₀)
      (fun e s l => Fails m i l₀ s l e) := by
    refine (lock_triple h.steady.applied).mono (fun _ _ h => h) (fun _ s l hready => ?_) ?_
    · have hadd : l₀.addLock insert.table = l₀ := if_neg (by simp [htx])
      rw [hadd, hlocked] at hready
      exact hready
    · rintro (_ | e) s l ⟨he, hready⟩
      · exact absurd rfl he
      · exact hready.done_err h.steady (h.settled rfl) hcommits
  refine .bind hlock fun _ => ?_
  have hbody : Obeys m ex policy i (Ready i [insert.table] l₀)
      (executeOn ex engine (.insert insert))
      (fun _ s l => ∃ batch, (m.whole → insert.Batch m.store batch) ∧
        Ready i [insert.table] (l₀.after (.insertRows (insert.pairs batch))) s l)
      (StatementRefused i [insert.table] l₀) :=
    (executeInsert_keeps insert (mem_singleton_self _) htx h.statement hcommits).map
      fun _ _ _ h => h
  refine .bind (Triple.attempt hbody) fun result => ?_
  cases result with
  | ok r =>
    refine .of_exists fun batch => .of_fact fun hbatch => ?_
    refine .bind (unlockStatement_triple (.statement true) ?_ fun hwhole => ?_)
      fun _ => ?_
    · exact hpending
    · rw [(l₀.after _).answers_statement h.current]
      show ConvertedRows m.store _ (rowsFor insert.table (l₀.applied ++ insert.pairs batch))
      rw [h.steady.applied, nil_append, Insert.pairs, rowsFor_pairs, if_pos rfl]
      have hself : insertsInto insert.table [insert] = [insert] := by simp [insertsInto]
      rw [hself]
      exact .single (hbatch hwhole)
    · refine .done fun s l _ hready => ?_
      rw [← hlocked] at hready
      have hnone : l₀.work.pending = none := by
        rw [← not_isSome_iff_eq_none, h.accounted.opened, htx]
        exact Bool.false_ne_true
      refine Ready.done_ok (c := l₀.inserted insert batch) hready h.steady.inserted ?_
      show (l₀.inserted insert batch).Accounted m (l₀.work.after (l₀.current, .ok r))
      rw [h.current, Work.after_autocommit hnone]
      exact h.accounted.inserted h.current
  | err e =>
    refine .bind ((unlockStatement_triple (.statement false) hpending
      fun _ => ?_).pre fun _ _ h => h.2) fun _ => .done fun s l _ hready => ?_
    · rw [h.steady.applied]
      exact .nil
    · have hkept := hready.kept h.steady.applied rfl
      rw [← hlocked] at hkept
      exact hkept.done_err h.steady (h.settled rfl) hcommits
  | panic => exact fun s l _ h => absurd rfl h.1

theorem Conn.Steady.buffered (h : l₀.Steady) (rows : List (String × Row)) :
    (l₀.buffered rows).Steady where
  nodup := h.nodup
  closed hnone := absurd hnone (some_ne_none _)
  applied := h.applied

theorem Conn.Accounted.buffered {before : List Insert} {batch : List Row}
    (h : l₀.Accounted m work) (hopen : work.pending = some before)
    (hmine : insert.table ∈ l₀.locked) (hbatch : m.whole → insert.Batch m.store batch) :
    (l₀.buffered (insert.pairs batch)).Accounted m
      { work with pending := some (before ++ [insert]) } where
  opened := rfl
  locked := by
    have hbefore := h.locked
    rw [Work.undecided, hopen] at hbefore
    exact forall_mem_append.mpr ⟨hbefore, forall_mem_singleton.mpr hmine⟩
  pending hwhole table := by
    have hbefore := h.pending hwhole table
    rw [Work.undecided, hopen] at hbefore
    show ConvertedRows m.store (insertsInto table (before ++ [insert])) _
    rw [insertsInto_append, Conn.pending_buffered, Insert.pairs, rowsFor_pairs]
    refine hbefore.append ?_
    by_cases heq : table = insert.table
    · have hself : insertsInto table [insert] = [insert] := by simp [insertsInto, heq]
      rw [hself, if_pos heq]
      exact .single (hbatch hwhole)
    · have hother : insertsInto table [insert] = [] := by simp [insertsInto, Ne.symm heq]
      rw [hother, if_neg heq]
      exact .nil
  answered := h.answered

theorem Conn.Steady.addLock (h : l₀.Steady) (hnew : table ∉ l₀.locked) (htx : l₀.tx.isSome) :
    (l₀.addLock table).Steady := by
  rw [Conn.addLock, if_pos htx]
  refine ⟨?_, fun hnone => ?_, h.applied⟩
  · exact nodup_append.mpr ⟨h.nodup, nodup_singleton _, by
      rintro a ha b hb rfl
      exact hnew (mem_singleton.mp hb ▸ ha)⟩
  · rw [show l₀.tx = none from hnone] at htx
    cases htx

theorem Conn.Accounted.stopped (h : l₀.Accounted m work) (htx : l₀.tx.isSome)
    {rows : List (String × Row)} (hrows : m.whole → rows = []) :
    (l₀.buffered rows).Accounted m work where
  opened := h.opened.trans htx
  locked := h.locked
  pending hwhole table := by
    rw [Conn.pending_buffered, hrows hwhole]
    exact (append_nil (l₀.pending table)).symm ▸ h.pending hwhole table
  answered := h.answered

theorem Conn.Starts.addLock (h : l₀.Starts m (.insert insert)) (htx : l₀.tx.isSome)
    (hnew : table ∉ l₀.locked) : (l₀.addLock table).Starts m (.insert insert) := by
  have hsteady := h.steady.addLock hnew htx
  rw [Conn.addLock, if_pos htx] at hsteady ⊢
  refine ⟨hsteady, ⟨h.accounted.opened, fun rows hrows => ?_, h.accounted.pending,
    h.accounted.answered⟩, h.statement, h.current⟩
  exact mem_append_left _ (h.accounted.locked rows hrows)

theorem insertLocked_statement {l₁ : Conn} (h : l₁.Starts m (.insert insert))
    (htx : l₁.tx.isSome) (hmine : insert.table ∈ l₁.locked) :
    Obeys m ex policy i (Ready i l₁.locked l₁) (executeOn ex overlay (.insert insert))
      (fun r s l => l.Done m i (.ok r) s) (fun e s l => Fails m i l₀ s l e) := by
  have hbody : Obeys m ex policy i (Ready i l₁.locked l₁)
      (executeOn ex overlay (.insert insert))
      (fun _ s l => ∃ batch, (m.whole → insert.Batch m.store batch) ∧
        Ready i l₁.locked (l₁.buffered (insert.pairs batch)) s l)
      (BufferStops m i l₁.locked l₁) :=
    (executeInsert_overlay insert hmine htx h.statement).map fun _ _ _ h => h
  refine hbody.mono (fun _ _ h => h) ?_ ?_
  · rintro r s l ⟨batch, hbatch, hready⟩
    obtain ⟨before, hbefore⟩ := isSome_iff_exists.mp (h.accounted.opened.trans htx)
    refine Ready.done_ok (c := l₁.buffered (insert.pairs batch)) hready (h.steady.buffered _) ?_
    show (l₁.buffered (insert.pairs batch)).Accounted m (l₁.work.after (l₁.current, .ok r))
    rw [h.current, Work.after_insert hbefore]
    exact h.accounted.buffered hbefore hmine hbatch
  · rintro (_ | e) s l ⟨he, rows, hready, hwhole⟩
    · exact absurd rfl he
    · have hcommits : ¬ l₁.commits := insert_not_commits h
      refine Ready.done_err (c := l₁.buffered rows) hready (h.steady.buffered _) ?_ hcommits
      exact (h.settled rfl).stopped htx fun hw => (append_eq_nil_iff.mp (hwhole hw)).2

theorem insertInTransaction_statement (h : l₀.Starts m (.insert insert)) (htx : l₀.tx.isSome) :
    Obeys m ex policy i (Ready i l₀.locked l₀)
      (insertInTransaction ex l₀.locked insert)
      (fun r s l => l.Done m i (.ok r) s) (fun e s l => Fails m i l₀ s l e) := by
  refine .ite (fun hmine => ?_) fun hnew => ?_
  · exact insertLocked_statement h htx hmine
  · have hadd : l₀.addLock insert.table = { l₀ with locked := l₀.locked ++ [insert.table] } :=
      if_pos htx
    have hlocked : (l₀.addLock insert.table).locked = l₀.locked ++ [insert.table] := by rw [hadd]
    have hlock : Obeys m ex policy i (Ready i l₀.locked l₀)
        (perform (.lock insert.table))
        (fun _ => Ready i (l₀.addLock insert.table).locked (l₀.addLock insert.table))
        (fun e s l => Fails m i l₀ s l e) := by
      refine (lock_triple h.steady.applied).mono (fun _ _ h => h)
        (fun _ s l hready => hlocked ▸ hready) ?_
      rintro (_ | e) s l ⟨he, hready⟩
      · exact absurd rfl he
      · exact hready.done_err h.steady (h.settled rfl) (insert_not_commits h)
    refine .bind hlock fun _ => insertLocked_statement (h.addLock htx hnew) ?_ ?_
    · rw [hadd]
      exact htx
    · rw [hlocked]
      exact mem_append_right _ (mem_singleton_self _)

theorem columnDefToSchema_ne_panic (col : ColumnDef) : columnDefToSchema col ≠ .panic := by
  unfold columnDefToSchema
  generalize ColumnType.fromName col.typeName = found
  cases found with
  | none => exact nofun
  | some columnType => exact nofun

theorem TableDraft.add_ne_panic (draft : TableDraft) (col : ColumnDef) : draft.add col ≠ .panic := by
  have hne := columnDefToSchema_ne_panic col
  unfold TableDraft.add
  -- with the column left abstract, no step looks into the name of its type
  generalize columnDefToSchema col = found at hne ⊢
  refine bind_ne_panic hne fun p _ => ?_
  obtain ⟨schema, isPrimaryKey⟩ := p
  dsimp only
  split
  · exact nofun
  · split <;> exact nofun

theorem resolveColumns_ne_panic (columns : List ColumnDef) : resolveColumns columns ≠ .panic := by
  have hadd : ∀ draft col, TableDraft.add draft col ≠ .panic := TableDraft.add_ne_panic
  unfold resolveColumns
  generalize TableDraft.add = add at hadd ⊢
  have hfold : (columns.foldlM add ⟨[], none, none⟩).Post fun _ => True :=
    Post.foldlM (fun draft _ col _ => post_of_ne_panic (hadd draft col)) trivial
  refine bind_ne_panic hfold.ne_panic fun draft _ => ?_
  split <;> exact nofun

theorem resolveAction_ne_panic (action : AlterAction) : resolveAction action ≠ .panic := by
  have hne := columnDefToSchema_ne_panic
  unfold resolveAction
  generalize columnDefToSchema = found at hne ⊢
  cases action with
  | addColumn col => exact bind_ne_panic (hne col) fun _ _ => nofun
  | modifyColumn col =>
    dsimp only
    split
    · exact nofun
    · exact bind_ne_panic (hne col) fun _ _ => nofun
  | dropColumn | addPrimaryKey | dropPrimaryKey => exact nofun

theorem call_keeps {c : Call} (hinserts : c.inserts = []) (hstatement : l₀.statement = [])
    (hcommits : ¬ l₀.commits) :
    Obeys m ex policy i (Ready i l₀.locked l₀) (call c)
      (fun _ => Ready i l₀.locked l₀) (StatementRefused i l₀.locked l₀) := by
  have hafter : l₀.after c = l₀ := by
    rw [Conn.after, hinserts, append_nil, ← hstatement]
  have hcall : Obeys m ex policy i (Ready i l₀.locked l₀) (call c)
      (fun _ => Ready i l₀.locked (l₀.after c)) (CallFails i l₀.locked l₀) := by
    refine call_triple (fun _ _ _ => Ready.rely) (fun _ _ h => h) (fun s l _ h hl => ?_)
      (fun s l _ _ _ table hne => ?_) hstatement (fun table _ => ?_) fun h => absurd h hcommits
    · exact absurd (h.like.commits.mp hl) hcommits
    · rw [hinserts] at hne
      exact absurd rfl hne
    · rw [hinserts]
      rfl
  rw [hafter] at hcall
  exact hcall.fail fun e s l h => ⟨h.1, h.2.1⟩

/-- The other statements leave locks and pending rows alone. -/
theorem execute_keeps {storage : Storage Program} (hstorage : storage = engine ∨ storage = overlay)
    {st : Statement} (hstatement : l₀.statement = []) (hcommits : ¬ l₀.commits)
    (hst : ∀ insert, st ≠ .insert insert) :
    Obeys m ex policy i (Ready i l₀.locked l₀) (execute storage st)
      (fun _ => Ready i l₀.locked l₀) (StatementRefused i l₀.locked l₀) := by
  have hcreate : storage.createTable = engine.createTable := by rcases hstorage with rfl | rfl <;> rfl
  have halter : storage.alterTable = engine.alterTable := by rcases hstorage with rfl | rfl <;> rfl
  have hcreateDb : storage.createDatabase = engine.createDatabase := by
    rcases hstorage with rfl | rfl <;> rfl
  have hdropDb : storage.dropDatabase = engine.dropDatabase := by
    rcases hstorage with rfl | rfl <;> rfl
  cases st with
  | insert insert => exact absurd rfl (hst insert)
  | begin | commit | rollback =>
    exact .done fun s l _ h => ⟨some_ne_none _, h⟩
  | select | set | use | showStatement => exact .pure fun _ _ _ h => h
  | createTable table columns =>
    simp only [execute, executeCreateTable, hcreate]
    refine .map (Triple.bind (Triple.lift_of_ne_panic
      (resolveColumns_ne_panic columns)) fun p => ?_) fun _ _ _ h => h
    exact call_keeps rfl hstatement hcommits
  | alterTable table action =>
    simp only [execute, executeAlterTable, halter]
    refine .map (Triple.bind (Triple.lift_of_ne_panic
      (resolveAction_ne_panic action)) fun change => ?_) fun _ _ _ h => h
    exact call_keeps rfl hstatement hcommits
  | createDatabase name ifNotExists =>
    simp only [execute, hcreateDb]
    exact (call_keeps rfl hstatement hcommits).map fun _ _ _ h => h
  | dropDatabase name ifExists =>
    simp only [execute, hdropDb]
    exact (call_keeps rfl hstatement hcommits).map fun _ _ _ h => h

variable {st : Statement}

/-- A statement that does not touch the rows of a transaction. -/
def Statement.Neutral (st : Statement) : Prop :=
  ∀ (work : Work) (r : Result QueryResult), r ≠ .panic → work.after (some st, r) = work

theorem ReadFails.fails {e : Option Error} {s : Db} {l : Conn} (h : l₀.Starts m st)
    (hneutral : st.Neutral) (hcommits : ¬ l₀.commits)
    (hfails : ReadFails m i l₀.locked l₀ e s l) : Fails m i l₀ s l e := by
  cases e with
  | none => exact ⟨⟨fun hquiet => hfails.1 hquiet rfl, hcommits⟩, hfails.2⟩
  | some e => exact hfails.2.done_err h.steady (h.settled (hneutral _ _ nofun)) hcommits

theorem executeOn_statement {storage : Storage Program}
    (hstorage : storage = engine ∨ storage = overlay) (h : l₀.Starts m st)
    (hneutral : st.Neutral) (hcommits : ¬ l₀.commits) (hinsert : ∀ insert, st ≠ .insert insert) :
    Obeys m ex policy i (Ready i l₀.locked l₀) (executeOn ex storage st)
      (fun r s l => l.Done m i (.ok r) s) (fun e s l => Fails m i l₀ s l e) := by
  have hother : Obeys m ex policy i (Ready i l₀.locked l₀)
      (QueryResult.affected <$> execute storage st)
      (fun r s l => l.Done m i (.ok r) s) (fun e s l => Fails m i l₀ s l e) := by
    refine .map ((execute_keeps hstorage h.statement hcommits hinsert).fail
      fun e s l hfails => ReadFails.fails h hneutral hcommits hfails.readFails)
      fun count s l hready => ?_
    exact hready.done_ok h.steady (h.settled (hneutral _ _ nofun))
  cases st with
  | select query =>
    have hfetches : Fetches m ex policy i l₀.locked l₀ storage := by
      rcases hstorage with rfl | rfl
      · exact engine_fetches
      · exact overlay_fetches
    exact (executeSelect_keeps hfetches query).mono (fun _ _ h => h)
      (fun r s l hready => hready.done_ok h.steady (h.settled (hneutral _ _ nofun)))
      fun e s l => ReadFails.fails h hneutral hcommits
  | insert insert => exact absurd rfl (hinsert insert)
  | _ => exact hother

theorem statement_keeps (h : l₀.Starts m st) :
    Obeys m ex policy i (Ready i l₀.locked l₀) (executeStatement ex l₀ st)
      (fun r s l => l.Done m i (.ok r) s) (fun e s l => Fails m i l₀ s l e) := by
  have hstorage : (if l₀.tx.isSome then overlay else engine) = engine ∨
      (if l₀.tx.isSome then overlay else engine) = overlay := by
    split
    · exact .inr rfl
    · exact .inl rfl
  cases st with
  | begin => exact (begin_statement h).map fun _ _ _ hdone => hdone
  | commit => exact (commit_statement h).map fun _ _ _ hdone => hdone
  | rollback =>
    refine (dropTransaction_keeps h.steady).map fun _ s l hready => ?_
    refine Ready.done_ok hready (.ended _ _) ?_
    show (l₀.ended .abandoned l₀.statement).Accounted m (l₀.work.after (l₀.current, .ok _))
    rw [h.current]
    exact h.accounted.dropped _ (fun _ => rfl) _
  | insert insert =>
    refine .ite (fun htx => insertInTransaction_statement h htx) fun htx => ?_
    exact insertAutocommit_statement h (not_isSome_iff_eq_none.mp htx)
  | _ =>
    refine executeOn_statement hstorage h (fun work r hr => ?_) (h.not_commits nofun nofun)
      fun _ => nofun
    cases r with
    | ok r => rfl
    | err e => rfl
    | panic => exact absurd rfl hr

def Stops (m : Mode) (i : Nat) (s : Db) (l : Conn) (e : Option Error) : Prop :=
  l.Done m i (e.elim .panic .err) s

theorem Conn.Accounted.panicked (h : l₀.Accounted m l₀.work) :
    (l₀.ended .abandoned l₀.statement).Accounted m (l₀.work.after (l₀.current, .panic)) := by
  have hafter : l₀.work.after (l₀.current, .panic) = { l₀.work with pending := none } := by
    cases l₀.current <;> rfl
  rw [hafter]
  exact h.dropped _ (fun _ => rfl) _

theorem command_keeps (command : Command) (hsteady : l₀.Steady)
    (haccounted : l₀.Accounted m l₀.work) (hstatement : l₀.statement = [])
    (hcurrent : l₀.current = command.statement) :
    Obeys m ex policy i (Ready i l₀.locked l₀) (command.program ex l₀)
      (fun r s l => l.Done m i (.ok r) s) (fun e s l => Stops m i s l e) := by
  cases command with
  | disconnect =>
    refine (dropTransaction_keeps hsteady).map fun _ s l hready => ?_
    refine Ready.done_ok hready (.ended _ _) ?_
    show (l₀.ended .abandoned l₀.statement).Accounted m (l₀.work.after (l₀.current, .ok _))
    rw [hcurrent]
    exact haccounted.dropped _ (fun _ => rfl) _
  | execute st =>
    have hstarts : l₀.Starts m st := ⟨hsteady, haccounted, hstatement, hcurrent⟩
    refine .bind (Triple.attempt (statement_keeps hstarts)) fun result => ?_
    cases result with
    | ok r => exact .done fun _ _ _ hdone => hdone
    | err e => exact .done fun _ _ _ hdone => hdone
    | panic =>
      refine .of_fact fun hfact => ?_
      refine .bind (dropTransaction_keeps hsteady) fun _ => ?_
      refine .done fun s l _ hready => Ready.done hready (.ended _ _) ?_ ?_ ?_
      · exact haccounted.panicked
      · exact fun hquiet => absurd hquiet hfact.1
      · exact fun hcommits => absurd hcommits hfact.2

variable {s' : Db}

theorem Conn.Idle.rely (h : l.Idle m i s) (hrely : Db.Relies m i s s') : l.Idle m i s' :=
  { h with ready := h.ready.rely hrely }

theorem Conn.Done.rely (h : l.Done m i r s) (hrely : Db.Relies m i s s') : l.Done m i r s' :=
  { h with ready := h.ready.rely hrely }

theorem Conn.Idle.begin (h : l.Idle m i s) (command : Command) :
    Ready i (l.begin command).locked (l.begin command) s (l.begin command) ∧
      (l.begin command).Steady ∧ (l.begin command).Accounted m (l.begin command).work := by
  obtain ⟨⟨-, howns, hphase⟩, ⟨hnodup, hclosed, happlied⟩, -, haccounted⟩ := h
  exact ⟨⟨.refl _, ⟨howns.owner, howns.pending⟩, hphase⟩, ⟨hnodup, hclosed, happlied⟩,
    haccounted.opened, haccounted.locked, haccounted.pending, haccounted.answered⟩

theorem Conn.work_settle (l : Conn) (r : Result QueryResult) :
    (l.settle r).work = l.work.after (l.current, r) :=
  foldl_append

/-- What a connection has answered for is in step with the answers it has given. -/
theorem Conn.Done.settle (h : l.Done m i r s) : (l.settle r).Idle m i (s.lookAway i) := by
  obtain ⟨⟨-, howns, hphase⟩, ⟨hnodup, hclosed, happlied⟩, haccounted, -, -⟩ := h
  refine ⟨⟨.refl _, ⟨howns.owner, howns.pending⟩, hphase⟩, ⟨hnodup, hclosed, happlied⟩, rfl, ?_⟩
  rw [Conn.work_settle]
  exact ⟨haccounted.opened, haccounted.locked, haccounted.pending, haccounted.answered⟩

theorem Db.Ok.lookAway (h : s.Ok) (i : Nat) : (s.lookAway i).Ok :=
  ⟨h.wf, h.ranged, h.pipeline, h.holding⟩

theorem Db.Relies.lookAway {j : Nat} (hj : j ≠ i) : Db.Relies m j s (s.lookAway i) := by
  refine .of_same (.refl _) (fun _ => .rfl) rfl id fun table => ?_
  simp [Db.lookAway, hj]

/-- Connections keep to the discipline together. -/
theorem discipline_sound : (discipline m ex policy).Sound where
  idle_stable _ _ _ _ h hrely _ := h.rely hrely
  done_stable _ _ _ _ _ h hrely _ := h.rely hrely
  start i command s l hinv hidle := by
    obtain ⟨hready, hsteady, haccounted⟩ := hidle.begin command
    have hkeeps : Obeys m ex policy i
        (Ready i (l.begin command).locked (l.begin command)) (command.program ex (l.begin command))
        (fun r s l => l.Done m i (.ok r) s) (fun e s l => Stops m i s l e) :=
      command_keeps command hsteady haccounted rfl rfl
    refine ⟨hinv, fun j _ => .refl m j s, ?_⟩
    refine Safe.mono (hkeeps s _ hinv hready) fun r s' l' hend => ?_
    cases r with
    | ok r => exact hend
    | err e => exact hend
    | panic => exact hend
  finish i r s l hinv hdone := ⟨hinv.lookAway i, fun _ hj => .lookAway hj, hdone.settle⟩
  outside e s s' hinv _ hstep := (Db.writerStep_writes hstep).keeps hinv

def World.applies (w : World) (i : Nat) : Option Call :=
  match w.next i with
  | some (.apply c) => some c
  | _ => none

def World.buffers (w : World) (i : Nat) : Option (TableSchema × String × Row) :=
  match w.next i with
  | some (.buffer schema table row) => some (schema, table, row)
  | _ => none

def AltersUnlocked (w : World) : MachineEvent → Prop
  | .perform i _ => ∀ c ∈ w.applies i, ∀ table ∈ c.alters, w.shared.owner table = none
  | _ => True

def LooksUndisturbed (w : World) : MachineEvent → Prop
  | .perform i _ => ∀ c ∈ w.applies i, ∀ table ∈ c.resizes, ∀ p ∈ w.shared.seen, p.2 ≠ table
  | _ => True

/-- A row that is buffered after another one of the same `INSERT` has a key that is free. -/
def InsertsWhole (w : World) : MachineEvent → Prop
  | .perform i _ => ∀ p ∈ w.buffers i, (w.threads i).state.statement ≠ [] →
      ∀ k ∈ p.1.keyIndex, ∀ key ∈ p.2.2[k]?,
        Transaction.View.KeyFree ⟨w.shared.store, (w.threads i).state.tx.getD .new⟩ p.2.1 k key
  | _ => True

instance (w : World) (e : MachineEvent) : Decidable (AltersUnlocked w e) := by
  unfold AltersUnlocked
  rcases e with ⟨⟩ <;> infer_instance

instance (w : World) (e : MachineEvent) : Decidable (LooksUndisturbed w e) := by
  unfold LooksUndisturbed
  rcases e with ⟨⟩ <;> infer_instance

instance (v : Transaction.View) (table : String) (k : Nat) (key : Value) :
    Decidable (v.KeyFree table k key) := by
  unfold Transaction.View.KeyFree
  infer_instance

instance (w : World) (e : MachineEvent) : Decidable (InsertsWhole w e) := by
  unfold InsertsWhole
  rcases e with ⟨⟩ <;> infer_instance

variable {w : World}
variable {store : Store}

theorem applies_eq {c : Call} {k : Outcome Error (Operation.apply c).Resp → Program QueryResult}
    (h : (w.threads i).task = some (.op (.apply c) k)) : w.applies i = some c := by
  rw [World.applies, next_eq h]

theorem buffers_eq {schema : TableSchema} {table : String} {row : Row}
    {k : Outcome Error (Operation.buffer schema table row).Resp → Program QueryResult}
    (h : (w.threads i).task = some (.op (.buffer schema table row) k)) :
    w.buffers i = some (schema, table, row) := by
  rw [World.buffers, next_eq h]

/-- The conditions of a run are those of the discipline. -/
theorem discipline_allows {e : MachineEvent} (halters : AltersUnlocked w e)
    (hwhole : m.whole → InsertsWhole w e ∧ m.store.Appends w.shared.store w.shared.batches.flatten)
    (hquiet : m.quiet → LooksUndisturbed w e) :
    (discipline m ex policy).Allows w e := by
  cases e with
  | start | finish | outside => trivial
  | perform i choice =>
    intro o k htask
    cases o with
    | apply c =>
      have hc := applies_eq htask
      exact ⟨fun table htable => halters c hc table htable,
        fun hq table htable => hquiet hq c hc table htable⟩
    | tableSchema table =>
      intro hmode t ht
      obtain ⟨t₀, ht₀, hschema, -⟩ := (hwhole hmode).2.of_lookup ht
      exact ⟨t₀, ht₀, hschema.symm⟩
    | buffer schema table row =>
      intro hmode hbuffered k key hk hkey
      exact (hwhole hmode).1 _ (buffers_eq htask) hbuffered k hk key hkey
    | _ => trivial

theorem Db.start_ok (hwf : store.Wf) (hranged : store.All Table.Ranged) (file : List UInt8) :
    (Db.start store file).Ok where
  wf := hwf
  ranged := hranged
  pipeline := ⟨nofun, .nil, nofun, nofun⟩
  holding := by
    rintro _ _ (hphase | hphase) <;> cases hphase

theorem start_holds (hwf : store.Wf) (hranged : store.All Table.Ranged) (file : List UInt8) :
    (discipline m ex policy).Holds (World.start store file) := by
  refine ⟨Db.start_ok hwf hranged file, fun i =>
    ⟨⟨.refl _, ⟨fun table => ?_, ?_⟩, rfl⟩, ⟨.nil, fun _ => rfl, rfl⟩, rfl, ?_⟩⟩
  · exact ⟨fun h => absurd h.symm (some_ne_none i), fun h => absurd h not_mem_nil⟩
  · exact fun table hne => absurd rfl hne
  · exact ⟨rfl, nofun, fun _ _ => .nil, fun _ => rfl⟩

theorem next_task {o : Operation} (h : w.next i = some o) :
    ∃ k, (w.threads i).task = some (.op o k) := by
  unfold World.next at h
  split at h
  · rename_i o' k htask
    cases h
    exact ⟨k, htask⟩
  · cases h

end

end MysqlRust
