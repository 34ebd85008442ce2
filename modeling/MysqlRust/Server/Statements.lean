import MysqlRust.Query.Widths
import MysqlRust.Server.Discipline

/-! # Statements keep to the discipline

Each operation of a statement is verified on its own, against what the others may do in
between; a statement is the sequence of its operations.
-/
namespace MysqlRust

open Threads Contract List Function Outcome

section

structure Conn.Like (l l₀ : Conn) : Prop where
  tx : l.tx = l₀.tx
  locked : l.locked = l₀.locked
  current : l.current = l₀.current
  statement : l.statement = l₀.statement
  applied : l.applied = l₀.applied
  history : l.history = l₀.history
  answered : l.answered = l₀.answered

structure Conn.Owns (i : Nat) (locks : List String) (s : Db) (l : Conn) : Prop where
  owner : ∀ table, s.owner table = some i ↔ table ∈ locks
  pending : s.Admits i l.pending

structure Ready (i : Nat) (locks : List String) (l₀ : Conn) (s : Db) (l : Conn) : Prop where
  like : l.Like l₀
  owns : l.Owns i locks s
  phase : s.phase i = .none

structure Conn.Steady (l : Conn) : Prop where
  nodup : l.locked.Nodup
  closed : l.tx = none → l.locked = []
  applied : l.applied = []

/-- The pending rows are those of the `INSERT`s of the open transaction; the connection has
answered for the committed ones. -/
structure Conn.Accounted (m : Mode) (work : Work) (l : Conn) : Prop where
  opened : work.pending.isSome = l.tx.isSome
  locked : ∀ rows ∈ work.undecided, rows.table ∈ l.locked
  pending : m.whole → ∀ table,
    ConvertedRows m.store (insertsInto table work.undecided) (l.pending table)
  answered : ∀ table, l.answered table = insertsInto table work.committed

structure Conn.Idle (m : Mode) (i : Nat) (s : Db) (l : Conn) : Prop where
  ready : Ready i l.locked l s l
  steady : l.Steady
  statement : l.statement = []
  accounted : l.Accounted m l.work

structure Conn.Done (m : Mode) (i : Nat) (r : Result QueryResult) (s : Db) (l : Conn) : Prop where
  ready : Ready i l.locked l s l
  steady : l.Steady
  accounted : l.Accounted m (l.work.after (l.current, r))
  safe : m.quiet → r ≠ .panic
  committed : l.commits → r.isOk = true ∨ ∃ e, r = .err e ∧ l.ack = some (.err e)

variable {m : Mode} {i : Nat} {locks : List String} {s s' : Db} {l l₀ l₁ : Conn}

theorem Conn.Like.refl (l : Conn) : l.Like l := ⟨rfl, rfl, rfl, rfl, rfl, rfl, rfl⟩

theorem Conn.Like.recorded (h : l.Like l₀) (resolved : Option (String × TableSchema))
    (ack : Option (Result Unit)) (reads : List TableRead) :
    Conn.Like { l with resolved, ack, reads } l₀ :=
  ⟨h.tx, h.locked, h.current, h.statement, h.applied, h.history, h.answered⟩

theorem Conn.Like.pending (h : l.Like l₀) (table : String) : l.pending table = l₀.pending table := by
  rw [Conn.pending, Conn.pending, h.tx]

theorem Conn.Like.work (h : l.Like l₀) : l.work = l₀.work := by
  rw [Conn.work, Conn.work, h.history]

theorem Conn.Like.answers (h : l.Like l₀) (table : String) (why : Release) :
    l.answers table why = l₀.answers table why := by
  unfold Conn.answers
  rw [h.current, h.work]

theorem Conn.Owns.rely (h : l.Owns i locks s) (hrely : Db.Relies m i s s') : l.Owns i locks s' where
  owner table := (hrely.owner table).trans (h.owner table)
  pending := h.pending.rely hrely

/-- What a connection knows between its operations survives the steps of others. -/
theorem Ready.rely (h : Ready i locks l₀ s l) (hrely : Db.Relies m i s s') :
    Ready i locks l₀ s' l where
  like := h.like
  owns := h.owns.rely hrely
  phase := hrely.none h.phase

def Conn.addLock (l : Conn) (table : String) : Conn :=
  if l.tx.isSome then { l with locked := l.locked ++ [table] } else l

def Conn.closed (l : Conn) : Conn := { l with tx := none, locked := [] }

def Conn.after (l : Conn) (c : Call) : Conn :=
  { l with applied := l.applied ++ c.inserts, statement := c.inserts }

theorem Conn.Like.addLock (h : l.Like l₀) (table : String) :
    (l.addLock table).Like (l₀.addLock table) := by
  have htx : l.tx.isSome = l₀.tx.isSome := congrArg Option.isSome h.tx
  unfold Conn.addLock
  by_cases hsome : l₀.tx.isSome
  · rw [if_pos (htx.trans hsome), if_pos hsome]
    exact { h with locked := congrArg (· ++ [table]) h.locked }
  · rw [if_neg (htx ▸ hsome), if_neg hsome]
    exact h

@[simp] theorem Conn.pending_addLock (l : Conn) (table : String) :
    (l.addLock table).pending = l.pending := by
  unfold Conn.addLock
  split <;> rfl

theorem Db.Admits.mono {rows : String → List Row} (h : s.Admits i rows)
    (howner : ∀ table, rows table ≠ [] → s.owner table = some i → s'.owner table = some i)
    (hstore : ∀ table t, rows table ≠ [] → s.owner table = some i →
      s.store.tables.lookup table = some t → ∃ t', s'.store.tables.lookup table = some t' ∧ t.Same t') :
    s'.Admits i rows := by
  intro table hrows
  obtain ⟨hmine, t, ht, hadmits⟩ := h table hrows
  obtain ⟨t', ht', hsame⟩ := hstore table t hrows hmine ht
  exact ⟨howner table hrows hmine, t', ht', hadmits.same hsame⟩

def discipline (m : Mode) (ex : Executor) (policy : SyncPolicy) : Contract (machine ex policy) where
  Inv := Db.Ok
  Rely := Db.Relies m
  Idle i s l := l.Idle m i s
  Pre i o s l := o.Owes m i s l
  Done i r s l := l.Done m i r s
  May _ o _ s l := o.May m s l
  Happens _ _ := True
  rely_refl := Db.Relies.refl m
  rely_trans _ _ _ _ := Db.Relies.trans

/-- A program of connection `i` keeps to the discipline from `P` to `Q`, or to `E` if it fails. -/
abbrev Obeys (m : Mode) (ex : Executor) (policy : SyncPolicy) (i : Nat) {α : Type} :=
  (discipline m ex policy).Triple i (β := α)

variable {ex : Executor} {policy : SyncPolicy} {table : String}
variable {E : Option Error → Db → Conn → Prop}
variable {why : Release} {F : Option (Result Unit) → Prop}

/-- An operation is verified by what it establishes; the rest is the same for all. -/
theorem perform_triple {o : Operation} {P : Db → Conn → Prop} {Q : o.Resp → Db → Conn → Prop}
    (hP : ∀ s s' l, P s l → Db.Relies m i s s' → P s' l)
    (hpre : ∀ s l, s.Ok → P s l → o.Owes m i s l)
    (hpost : ∀ s l choice r s' l', s.Ok → P s l → o.May m s l →
      o.run i choice s l = some (r, s', l') → Ends Q E r s' l') :
    Obeys m ex policy i P (perform o) Q E := by
  refine .perform (fun s s' l h hrely _ => hP s s' l h hrely) hpre ?_
  intro s l choice r s' l' hinv hs hmay hrun
  have heffect := Operation.run_effect hrun
  have howes := hpre s l hinv hs
  exact ⟨heffect.ok hinv howes, fun j hj => heffect.relies howes hmay hj,
    hpost s l choice r s' l' hinv hs hmay hrun⟩

def StatementRefused (i : Nat) (locks : List String) (l₀ : Conn) (e : Option Error) (s : Db) (l : Conn) :
    Prop := e ≠ none ∧ Ready i locks l₀ s l

theorem lock_triple (happlied : l₀.applied = []) :
    Obeys m ex policy i (Ready i locks l₀) (perform (.lock table))
      (fun _ => Ready i (locks ++ [table]) (l₀.addLock table)) (StatementRefused i locks l₀) := by
  refine perform_triple (fun _ _ _ => Ready.rely) (fun s l _ h => ?_) ?_
  · show rowsFor table l.applied = []
    rw [h.like.applied, happlied]
    rfl
  · intro s l choice r s' l' _ h _ hrun
    simp only [Operation.run] at hrun
    split at hrun
    · rename_i hfree
      cases hrun
      refine ⟨h.like.addLock table, ⟨fun other => ?_, ?_⟩, h.phase⟩
      · by_cases heq : other = table
        · subst heq
          simp
        · simp [heq, h.owns.owner]
      · rw [show (if l.tx.isSome then { l with locked := l.locked ++ [table] } else l).pending =
          l.pending from l.pending_addLock table]
        refine h.owns.pending.mono (fun other _ hmine => ?_) fun _ t _ _ ht => ⟨t, ht, .refl t⟩
        have hne : other ≠ table := by
          rintro rfl
          cases hfree.symm.trans hmine
        exact (update_of_ne hne _ _).trans hmine
    · split at hrun
      · cases hrun
        exact ⟨Option.some_ne_none _, h⟩
      · cases hrun

/-- A released lock answers for the rows applied under it. -/
theorem unlock_triple (hlocks : table ∉ locks) (hpending : l₀.pending table = [])
    (hcredit : m.whole → ConvertedRows m.store (l₀.answers table why) (rowsFor table l₀.applied)) :
    Obeys m ex policy i (fun s l => Ready i (table :: locks) l₀ s l ∧ F l.ack)
      (perform (.unlock table why))
      (fun _ s l => Ready i locks (l₀.dropLock table why) s l ∧ F l.ack) E := by
  refine perform_triple (fun _ _ _ h hrely => ⟨h.1.rely hrely, h.2⟩) (fun s l _ h => ?_) ?_
  · refine ⟨(h.1.owns.owner table).mpr mem_cons_self, h.1.phase, fun hwhole => ?_⟩
    rw [h.1.like.answers, h.1.like.applied]
    exact hcredit hwhole
  · intro s l choice r s' l' _ h _ hrun
    cases hrun
    obtain ⟨⟨hlike, howns, hphase⟩, hack⟩ := h
    refine ⟨⟨{ hlike with applied := ?_, answered := ?_ }, ⟨fun other => ?_, ?_⟩, hphase⟩, hack⟩
    · rw [Conn.dropLock, hlike.applied]
      rfl
    · rw [Conn.dropLock, hlike.answered, hlike.answers]
      rfl
    · by_cases heq : other = table
      · subst heq
        simp [hlocks]
      · simp [heq, howns.owner]
    · refine howns.pending.mono (fun other hrows hmine => ?_) fun _ t _ _ ht => ⟨t, ht, .refl t⟩
      have hne : other ≠ table := by
        rintro rfl
        exact hrows ((hlike.pending other).trans hpending)
      exact (update_of_ne hne _ _).trans hmine

theorem rowsFor_filter {name : String} (hne : name ≠ table) (rows : List (String × Row)) :
    rowsFor name (rows.filter fun p => p.1 ≠ table) = rowsFor name rows := by
  unfold rowsFor
  rw [filter_filter]
  congr 1
  refine filter_congr fun p _ => ?_
  by_cases heq : p.1 = name
  · simp [heq, hne]
  · simp [heq]

def Conn.answeredFor (l : Conn) (why : Release) (locks : List String) (table : String) :
    List Insert :=
  l.answered table ++ if table ∈ locks then l.answers table why else []

theorem Conn.answeredFor_cons {l : Conn} (htable : table ∉ locks) :
    (l.dropLock table why).answeredFor why locks = l.answeredFor why (table :: locks) := by
  funext other
  show update l.answered table _ other ++ (if other ∈ locks then l.answers other why else []) =
    l.answered other ++ _
  by_cases heq : other = table
  · subst heq
    rw [update_self, if_neg htable, if_pos mem_cons_self, append_nil]
  · simp [heq]

/-- Locks are released one after the other, each with its answer. -/
theorem releaseAll_triple (hnodup : locks.Nodup) (hpending : ∀ table, l₀.pending table = [])
    (hcredit : m.whole → ∀ table ∈ locks,
      ConvertedRows m.store (l₀.answers table why) (rowsFor table l₀.applied))
    (happlied : ∀ p ∈ l₀.applied, p.1 ∈ locks) :
    Obeys m ex policy i (fun s l => Ready i locks l₀ s l ∧ F l.ack)
      (releaseAll why locks)
      (fun _ s l => Ready i [] { l₀ with applied := [], answered := l₀.answeredFor why locks } s l ∧
        F l.ack) E := by
  induction locks generalizing l₀ with
  | nil =>
    have hnil : l₀.applied = [] := eq_nil_iff_forall_not_mem.mpr fun p hp =>
      absurd (happlied p hp) (by simp)
    refine .pure fun s l _ h => ⟨⟨?_, h.1.owns, h.1.phase⟩, h.2⟩
    have hnone : l₀.answeredFor why [] = l₀.answered := by
      funext table
      simp [Conn.answeredFor]
    exact { h.1.like with
      applied := h.1.like.applied.trans hnil
      answered := h.1.like.answered.trans hnone.symm }
  | cons table locks ih =>
    obtain ⟨htable, hnodup⟩ := nodup_cons.mp hnodup
    refine .bind (unlock_triple htable (hpending table) fun hwhole =>
      hcredit hwhole table mem_cons_self) fun _ => ?_
    rw [← Conn.answeredFor_cons htable]
    refine @ih (l₀.dropLock table why) hnodup hpending (fun hwhole other hother => ?_)
      fun p hp => ?_
    · have hne : other ≠ table := by
        rintro rfl
        exact htable hother
      rw [Conn.dropLock, rowsFor_filter hne]
      exact hcredit hwhole other (mem_cons_of_mem table hother)
    · obtain ⟨hmem, hne⟩ := mem_filter.mp hp
      rcases mem_cons.mp (happlied p hmem) with heq | hin
      · simp [heq] at hne
      · exact hin

inductive Taken (i : Nat) (locks : List String) (l₀ : Conn) (s : Db) (l : Conn) :
    Option (List (String × Row) × List String) → Prop
  | none (tx : l₀.tx = none) (ready : Ready i locks l₀ s l) : Taken i locks l₀ s l none
  | some {rows : List (String × Row)}
      (pending : ∀ table, rowsFor table rows = l₀.pending table)
      (ready : Ready i locks l₀.closed s l) (admits : s.Admits i (rowsFor · rows)) :
      Taken i locks l₀ s l (some (rows, l₀.locked))

/-- Taking the transaction hands over its rows, still admitted, and its locks. -/
theorem take_triple : Obeys m ex policy i (Ready i locks l₀) (perform .takeTransaction)
      (fun taken s l => Taken i locks l₀ s l taken) E := by
  refine perform_triple (fun _ _ _ => Ready.rely) (fun _ _ _ _ => trivial) ?_
  intro s l choice r s' l' _ h _ hrun
  simp only [Operation.run] at hrun
  split at hrun
  · rename_i tx htx
    split at hrun
    · rename_i horder
      cases hrun
      have hpending : ∀ table, rowsFor table (tx.commitRows choice.visited) = l₀.pending table := by
        intro table
        rw [Transaction.rowsFor_commitRows horder, ← h.like.pending, Conn.pending, htx]
        rfl
      have hadmits : s.Admits i (rowsFor · (tx.commitRows choice.visited)) := by
        have heq : (rowsFor · (tx.commitRows choice.visited)) = l.pending := by
          funext table
          rw [hpending, h.like.pending]
        rw [heq]
        exact h.owns.pending
      have hready : Ready i locks l₀.closed s { l with tx := none, locked := [] } :=
        ⟨{ h.like with tx := rfl, locked := rfl }, ⟨h.owns.owner, fun _ hne => absurd rfl hne⟩, h.phase⟩
      show Taken i locks l₀ s _ (some (tx.commitRows choice.visited, l.locked))
      rw [h.like.locked]
      exact .some hpending hready hadmits
    · cases hrun
  · rename_i htx
    cases hrun
    exact .none (by rw [← h.like.tx, htx]) h

theorem open_triple : Obeys m ex policy i (Ready i [] l₀) (perform .openTransaction)
      (fun _ => Ready i [] { l₀ with tx := some .new, locked := [], statement := [] }) E := by
  refine perform_triple (fun _ _ _ => Ready.rely) (fun _ _ _ _ => trivial) ?_
  intro s l choice r s' l' _ h _ hrun
  cases hrun
  exact ⟨{ h.like with tx := rfl, locked := rfl, statement := rfl },
    ⟨h.owns.owner, fun _ hne => absurd rfl hne⟩, h.phase⟩

variable {schema : TableSchema}

structure Seen (m : Mode) (i : Nat) (locks : List String) (l₀ : Conn) (table : String)
    (schema : TableSchema) (s : Db) (l : Conn) : Prop where
  ready : Ready i locks l₀ s l
  resolved : l.resolved = some (table, schema)
  seen : (i, table) ∈ s.seen
  width : m.quiet → ∃ t, s.store.tables.lookup table = some t ∧
    t.schema.columns.length = schema.columns.length

/-- In a whole run the schema is the one the table has throughout. -/
def Mode.Fixes (m : Mode) (table : String) (schema : TableSchema) : Prop :=
  m.whole → ∃ t, m.store.tables.lookup table = some t ∧ t.schema = schema

structure Knows (i : Nat) (locks : List String) (l₀ : Conn) (table : String)
    (schema : TableSchema) (s : Db) (l : Conn) : Prop where
  ready : Ready i locks l₀ s l
  mine : table ∈ locks
  known : ∃ t, s.store.tables.lookup table = some t ∧ t.schema = schema

theorem Seen.rely (h : Seen m i locks l₀ table schema s l) (hrely : Db.Relies m i s s') :
    Seen m i locks l₀ table schema s' l where
  ready := h.ready.rely hrely
  resolved := h.resolved
  seen := (hrely.seen table).mpr h.seen
  width hquiet := by
    obtain ⟨t, ht, hwidth⟩ := h.width hquiet
    obtain ⟨t', ht', hwidth'⟩ := hrely.width hquiet table t h.seen ht
    exact ⟨t', ht', hwidth'.trans hwidth⟩

theorem Knows.rely (h : Knows i locks l₀ table schema s l) (hrely : Db.Relies m i s s') :
    Knows i locks l₀ table schema s' l where
  ready := h.ready.rely hrely
  mine := h.mine
  known := by
    obtain ⟨t, ht, rfl⟩ := h.known
    obtain ⟨t', ht', hsame⟩ := hrely.tables table t ((h.ready.owns.owner table).mpr h.mine) ht
    exact ⟨t', ht', hsame.schema.symm⟩

theorem tableSchema_eq_ok (h : s.store.tableSchema table = .ok schema) :
    ∃ t, s.store.tables.lookup table = some t ∧ t.schema = schema := by
  obtain ⟨t, ht, hschema⟩ := map_eq_ok.mp h
  exact ⟨t, okOr_eq_ok.mp ht, hschema⟩

theorem tableSchema_triple : Obeys m ex policy i (Ready i locks l₀) (perform (.tableSchema table))
      (fun schema s l => Seen m i locks l₀ table schema s l ∧
        (table ∈ locks → m.Fixes table schema ∧ Knows i locks l₀ table schema s l))
      (StatementRefused i locks l₀) := by
  refine perform_triple (fun _ _ _ => Ready.rely) (fun _ _ _ _ => trivial) ?_
  intro s l choice r s' l' _ h hmay hrun
  simp only [Operation.run] at hrun
  split at hrun
  · rename_i schema hschema
    cases hrun
    obtain ⟨t, ht, rfl⟩ := tableSchema_eq_ok hschema
    have hready : Ready i locks l₀ (s.look i table) { l with resolved := some (table, t.schema) } :=
      ⟨h.like.recorded _ _ _, ⟨h.owns.owner, h.owns.pending⟩, h.phase⟩
    exact ⟨⟨hready, rfl, mem_cons_self, fun _ => ⟨t, ht, rfl⟩⟩,
      fun hmine => ⟨fun hwhole => hmay hwhole t ht, hready, hmine, t, ht, rfl⟩⟩
  · cases hrun
    exact ⟨Option.some_ne_none _, h⟩
  · rename_i hpanic
    simp only [Store.tableSchema, okOr] at hpanic
    split at hpanic <;> cases hpanic

theorem tableSchema_known :
    Obeys m ex policy i (Knows i locks l₀ table schema) (perform (.tableSchema table))
      (fun found s l => found = schema ∧ Knows i locks l₀ table schema s l) E := by
  refine perform_triple (fun _ _ _ => Knows.rely) (fun _ _ _ _ => trivial) ?_
  intro s l choice r s' l' _ h _ hrun
  obtain ⟨t, ht, rfl⟩ := h.known
  have hschema : s.store.tableSchema table = .ok t.schema := by simp [Store.tableSchema, okOr, ht]
  simp only [Operation.run, hschema] at hrun
  cases hrun
  obtain ⟨hlike, howns, hphase⟩ := h.ready
  exact ⟨rfl, ⟨hlike.recorded _ _ _, ⟨howns.owner, howns.pending⟩, hphase⟩, h.mine, t, ht, rfl⟩

theorem Db.Admits.same {rows : String → List Row} (h : s.Admits i rows) {store : Store}
    (hsame : s.store.Same store) {seen : List (Nat × String)} :
    Db.Admits { s with store, seen } i rows :=
  h.mono (fun _ _ hmine => hmine) fun _ _ _ _ ht => hsame.lookup ht

theorem nextAutoIncrement_triple : Obeys m ex policy i (Knows i locks l₀ table schema)
      (perform (.nextAutoIncrement table)) (fun _ => Knows i locks l₀ table schema)
      (fun e s l => e ≠ none ∧ Knows i locks l₀ table schema s l) := by
  refine perform_triple (fun _ _ _ => Knows.rely) (fun _ _ _ _ => trivial) ?_
  intro s l choice r s' l' _ h _ hrun
  have hsame := reserve_same table s.store
  have hpanic : (Store.reserve table s.store).1 ≠ .panic := by
    simp only [Store.reserve]
    cases hnext : nextAutoIncrement s.store table with
    | ok p => exact fun h => by cases h
    | err e => exact fun h => by cases h
    | panic => exact absurd hnext (nextAutoIncrement_ne_panic _ _)
  simp only [Operation.run, Option.some.injEq] at hrun
  obtain ⟨rfl, rfl, rfl⟩ := hrun
  generalize Store.reserve table s.store = p at hsame hpanic
  obtain ⟨value, store⟩ := p
  have hknows : Knows i locks l₀ table schema { s with store } l := by
    refine ⟨⟨h.ready.like, ⟨h.ready.owns.owner, h.ready.owns.pending.same hsame⟩, h.ready.phase⟩,
      h.mine, ?_⟩
    obtain ⟨t, ht, rfl⟩ := h.known
    obtain ⟨t', ht', hsame'⟩ := hsame.lookup ht
    exact ⟨t', ht', hsame'.schema.symm⟩
  cases value with
  | ok value => exact hknows
  | err e => exact ⟨Option.some_ne_none _, hknows⟩
  | panic => exact absurd rfl hpanic

variable {c : Call}

structure Queued (i : Nat) (locks : List String) (l₀ : Conn) (c : Call) (s : Db) (l : Conn) :
    Prop where
  like : l.Like l₀
  owns : l.Owns i locks s
  admits : s.Admits i (rowsFor · c.inserts)
  phase : s.phase i = .queued c ∨ s.phase i = .logged c ∨ s.phase i = .failed

structure Logged (i : Nat) (locks : List String) (l₀ : Conn) (c : Call) (s : Db) (l : Conn) :
    Prop where
  like : l.Like l₀
  owns : l.Owns i locks s
  admits : s.Admits i (rowsFor · c.inserts)
  phase : s.phase i = .logged c
  answered : ¬ Awaits s.writer s.mailbox i

/-- A call that fails has changed nothing; the failure of a `COMMIT` is that of the log. -/
def CallFails (i : Nat) (locks : List String) (l₀ : Conn) (e : Option Error) (s : Db) (l : Conn) :
    Prop := e ≠ none ∧ Ready i locks l₀ s l ∧
  (l₀.commits → ∃ x, e = some x ∧ l.ack = some (.err x))

theorem Queued.rely (h : Queued i locks l₀ c s l) (hrely : Db.Relies m i s s') :
    Queued i locks l₀ c s' l where
  like := h.like
  owns := h.owns.rely hrely
  admits := h.admits.rely hrely
  phase := by
    rcases hrely.phase with heq | ⟨c', hc', hdone⟩
    · rw [heq]
      exact h.phase
    · rcases h.phase with hphase | hphase | hphase
      · cases hphase.symm.trans hc'
        exact .inr hdone
      · cases hphase.symm.trans hc'
      · cases hphase.symm.trans hc'

theorem Logged.rely (h : Logged i locks l₀ c s l) (hrely : Db.Relies m i s s') :
    Logged i locks l₀ c s' l where
  like := h.like
  owns := h.owns.rely hrely
  admits := h.admits.rely hrely
  phase := by
    rcases hrely.phase with heq | ⟨c', hc', -⟩
    · exact heq.trans h.phase
    · cases h.phase.symm.trans hc'
  answered := hrely.answered (by simp [h.phase]) h.answered

theorem check_triple {P : Db → Conn → Prop} (hP : ∀ s s' l, P s l → Db.Relies m i s s' → P s' l)
    (hpre : ∀ s l, s.Ok → P s l → l.commits → ∃ go, check s.store c = .ok go)
    (hadmits : ∀ s l, s.Ok → P s l → check s.store c = .ok true →
      s.Admits i (rowsFor · c.inserts)) :
    Obeys m ex policy i P (perform (.check c))
      (fun go s l => P s l ∧ (go = true → s.Admits i (rowsFor · c.inserts)) ∧
        (go = false → c.inserts = []))
      (fun e s l => e ≠ none ∧ P s l ∧ ¬ l.commits) := by
  refine perform_triple hP hpre ?_
  intro s l choice r s' l' hinv h _ hrun
  cases hrun
  cases hcheck : check s.store c with
  | ok go =>
    refine ⟨h, fun hgo => ?_, fun hgo => ?_⟩
    · exact hadmits s l hinv h (hgo ▸ hcheck)
    · exact inserts_of_check_false (hgo ▸ hcheck)
  | err e =>
    refine ⟨Option.some_ne_none _, h, fun hcommits => ?_⟩
    obtain ⟨go, hgo⟩ := hpre s l hinv h hcommits
    cases hcheck.symm.trans hgo
  | panic => exact absurd hcheck (check_ne_panic hinv.wf c)

theorem submit_triple : Obeys m ex policy i
      (fun s l => Ready i locks l₀ s l ∧ s.Admits i (rowsFor · c.inserts)) (perform (.submit c))
      (fun _ => Queued i locks l₀ c) E := by
  refine perform_triple (fun _ _ _ h hrely => ⟨h.1.rely hrely, h.2.rely hrely⟩)
    (fun s l _ h => ⟨h.1.phase, h.2⟩) ?_
  intro s l choice r s' l' _ h _ hrun
  simp only [Operation.run] at hrun
  split at hrun
  · cases hrun
    exact ⟨h.1.like, ⟨h.1.owns.owner, h.1.owns.pending⟩, h.2, .inl (update_self _ _ _)⟩
  · cases hrun

theorem receive_triple : Obeys m ex policy i (Queued i locks l₀ c) (perform .receive)
      (fun _ => Logged i locks l₀ c)
      (fun e s l => ∃ x, e = some x ∧ l.ack = some (.err x) ∧ Ready i locks l₀ s l) := by
  refine perform_triple (fun _ _ _ => Queued.rely) (fun _ _ _ _ => trivial) ?_
  intro s l choice r s' l' hinv h _ hrun
  simp only [Operation.run] at hrun
  split at hrun
  · rename_i result hmail
    obtain ⟨-, hawaits⟩ := hinv.pipeline.receive hmail
    have hafter := hinv.pipeline.mail i result hmail
    generalize hphase : s.phase i = phase at hafter
    cases hafter with
    | logged c' =>
      cases hrun
      have hc : c' = c := by
        rcases h.phase with hc | hc | hc <;> cases hphase.symm.trans hc
        rfl
      subst hc
      exact ⟨h.like.recorded _ _ _, ⟨h.owns.owner, h.owns.pending⟩, h.admits, hphase, hawaits⟩
    | failed e =>
      cases hrun
      exact ⟨e, rfl, rfl, h.like.recorded _ _ _, ⟨h.owns.owner, h.owns.pending⟩, update_self _ _ _⟩
  · cases hrun

theorem apply_triple (hpending : ∀ table, l₀.pending table ≠ [] → rowsFor table c.inserts = []) :
    Obeys m ex policy i (Logged i locks l₀ c) (perform (.apply c))
      (fun _ => Ready i locks (l₀.after c))
      (fun e s l => e ≠ none ∧ Ready i locks l₀ s l ∧ ∀ rows, c ≠ .insertRows rows) := by
  refine perform_triple (fun _ _ _ => Logged.rely) (fun s l _ h => ⟨h.phase, h.answered, h.admits⟩) ?_
  intro s l choice r s' l' hinv h hmay hrun
  have hpost := apply_post (c := c) hinv.wf fun p hp => (h.admits.accepts hp).2
  have hready : ∀ {unapplied : List Request}, Ready i locks l₀
      { s with phase := update s.phase i .none, unapplied } l :=
    ⟨h.like, ⟨h.owns.owner, h.owns.pending⟩, update_self _ _ _⟩
  simp only [Operation.run] at hrun
  split at hrun
  · rename_i store hstore
    cases hrun
    refine ⟨{ h.like with applied := ?_, statement := rfl }, ⟨h.owns.owner, ?_⟩, update_self _ _ _⟩
    · rw [h.like.applied]
      rfl
    · refine h.owns.pending.mono (fun _ _ hmine => hmine) fun table t hrows hmine ht => ?_
      rw [h.like.pending] at hrows
      refine ⟨t, apply_lookup ht (hpending table hrows) (fun halters => ?_) hstore, .refl t⟩
      cases hmine.symm.trans (hmay.1 table halters)
  · rename_i e herr
    cases hrun
    refine ⟨Option.some_ne_none _, hready, ?_⟩
    rintro rows rfl
    exact foldlM_ne_err pushRow_ne_err rows s.store e herr
  · rename_i hpanic
    exact absurd hpanic hpost.ne_panic

/-- A call goes through or fails as a whole. -/
theorem call_triple {P : Db → Conn → Prop} (hP : ∀ s s' l, P s l → Db.Relies m i s s' → P s' l)
    (hready : ∀ s l, P s l → Ready i locks l₀ s l)
    (hpre : ∀ s l, s.Ok → P s l → l.commits → ∃ go, check s.store c = .ok go)
    (hadmits : ∀ s l, s.Ok → P s l → check s.store c = .ok true → s.Admits i (rowsFor · c.inserts))
    (hstatement : l₀.statement = [])
    (hpending : ∀ table, l₀.pending table ≠ [] → rowsFor table c.inserts = [])
    (hrows : l₀.commits → ∃ rows, c = .insertRows rows) :
    Obeys m ex policy i P (call c) (fun _ => Ready i locks (l₀.after c))
      (CallFails i locks l₀) := by
  refine .bind ((check_triple hP hpre hadmits).mono (fun _ _ h => h)
    (fun _ _ _ h => h) fun e s l h => ?_) fun go => ?_
  · obtain ⟨he, hs, hcommits⟩ := h
    refine ⟨he, hready s l hs, fun h => absurd ?_ hcommits⟩
    rwa [Conn.commits, (hready s l hs).like.current]
  cases go with
  | false =>
    refine .pure fun s l _ h => ?_
    obtain ⟨hlike, howns, hphase⟩ := hready s l h.1
    have hnil := h.2.2 rfl
    refine ⟨{ hlike with statement := ?_, applied := ?_ }, howns, hphase⟩
    · rw [hlike.statement, hstatement, Conn.after, hnil]
    · rw [hlike.applied, Conn.after, hnil, append_nil]
  | true =>
    refine .bind (submit_triple.pre fun s l h => ⟨hready s l h.1, h.2.1 rfl⟩)
      fun _ => ?_
    refine .bind (receive_triple.mono (fun _ _ h => h) (fun _ _ _ h => h)
      fun e s l h => ?_) fun _ => ?_
    · obtain ⟨x, rfl, hack, hs⟩ := h
      exact ⟨Option.some_ne_none _, hs, fun _ => ⟨x, rfl, hack⟩⟩
    · refine (apply_triple hpending).mono (fun _ _ h => h) (fun _ _ _ h => h) fun e s l h => ?_
      obtain ⟨he, hs, hother⟩ := h
      refine ⟨he, hs, fun hcommits => ?_⟩
      obtain ⟨rows, hc⟩ := hrows hcommits
      exact absurd hc (hother rows)

theorem insertValue_keeps (p : Expr × ColumnSchema) :
    Obeys m ex policy i (Knows i locks l₀ table schema) (insertValue engine table p)
      (fun value s l => CellOf p value ∧ Knows i locks l₀ table schema s l)
      (fun e s l => e ≠ none ∧ Knows i locks l₀ table schema s l) := by
  refine .bind (Triple.lift_ok (coerce_post _ _ _).ne_panic) fun value => ?_
  refine .of_fact fun hvalue => ?_
  refine .bind (Q := fun found s l =>
    (coerce p.1 p.2.columnType p.2.name = .ok found ∨
      coerce p.1 p.2.columnType p.2.name = .ok .null ∧ p.2.autoIncrement = true ∧
        ∃ n, found = .int n) ∧
    (found = .null → p.2.autoIncrement = false) ∧ Knows i locks l₀ table schema s l) ?_ fun found => ?_
  · refine .ite (fun h => ?_) fun h => ?_
    · exact nextAutoIncrement_triple.map fun n _ _ hs =>
        ⟨.inr ⟨h.1 ▸ hvalue, h.2, n, rfl⟩, nofun, hs⟩
    · refine .pure fun _ _ _ hs => ⟨.inl hvalue, fun hnull => ?_, hs⟩
      exact Bool.eq_false_of_not_eq_true fun hauto => h ⟨hnull, hauto⟩
  · refine .ite (fun _ => ?_) fun h => .pure fun _ _ _ hs => ?_
    · exact .done fun s l _ hs => ⟨Option.some_ne_none _, hs.2.2⟩
    · refine ⟨⟨hs.1, fun hnull => ⟨?_, hs.2.1 hnull⟩⟩, hs.2.2⟩
      exact Bool.eq_true_of_not_eq_false fun hn => h ⟨hnull, hn⟩

theorem insertValues_keeps (columns : Option (List String)) (row : List Expr) :
    Obeys m ex policy i (Knows i locks l₀ table schema)
      (insertValues engine table schema columns row)
      (fun values s l => (values.length = schema.columns.length ∧
        RowOf table schema columns row values) ∧ Knows i locks l₀ table schema s l)
      (fun e s l => e ≠ none ∧ Knows i locks l₀ table schema s l) := by
  have hpost := orderedExprs_post table schema columns row
  refine .bind (Triple.lift_ok hpost.ne_panic) fun exprs => ?_
  refine .of_fact fun hexprs => ?_
  rw [hexprs] at hpost
  refine (Triple.mapM fun p _ => insertValue_keeps p).post fun values s l h => ?_
  refine ⟨⟨?_, exprs, hexprs, h.1⟩, h.2⟩
  rw [← h.1.length_eq, length_zip, show exprs.length = _ from hpost, Nat.min_self]

theorem convertRows_keeps (insert : Insert) (hmine : insert.table ∈ locks) :
    Obeys m ex policy i (Ready i locks l₀) (convertRows engine insert)
      (fun batch s l => (m.whole → insert.Batch m.store batch) ∧
        ∃ schema, HaveWidth schema.columns.length batch ∧
          Knows i locks l₀ insert.table schema s l) (StatementRefused i locks l₀) := by
  refine .bind (tableSchema_triple.post fun _ _ _ h => h.2 hmine) fun schema =>
    Triple.of_fact fun hfixes => ?_
  have hrows : Obeys m ex policy i (Knows i locks l₀ insert.table schema)
      (insert.rows.mapM (insertValues engine insert.table schema insert.columns))
      (fun batch s l => List.Forall₂ (fun row values => values.length = schema.columns.length ∧
          RowOf insert.table schema insert.columns row values) insert.rows batch ∧
        Knows i locks l₀ insert.table schema s l)
      (fun e s l => e ≠ none ∧ Knows i locks l₀ insert.table schema s l) :=
    Triple.mapM fun row _ => insertValues_keeps insert.columns row
  refine hrows.mono (fun _ _ h => h) (fun batch s l h => ⟨fun hwhole => ?_, schema, ?_, h.2⟩)
    fun e s l h => ⟨h.1, h.2.ready⟩
  · obtain ⟨t, ht, rfl⟩ := hfixes hwhole
    exact ⟨t, ht, h.1.imp fun _ _ h => h.2⟩
  · intro row hrow
    obtain ⟨-, -, hlen, -⟩ := Lists.forall₂_mem_right h.1 hrow
    exact hlen

theorem Db.Ok.admits_of_check {rows : List (String × Row)} (hs : s.Ok)
    (hmine : ∀ p ∈ rows, s.owner p.1 = some i) (hcheck : check s.store (.insertRows rows) = .ok true) :
    s.Admits i (rowsFor · rows) := by
  obtain ⟨-, hadmits⟩ := (check_insertRows_iff hs.wf.placed).mp hcheck
  intro table hrows
  obtain ⟨row, hrow⟩ := exists_mem_of_ne_nil _ hrows
  obtain ⟨p, hp, -⟩ := mem_map.mp hrow
  obtain ⟨hmem, hname⟩ := mem_filter.mp hp
  cases of_decide_eq_true hname
  obtain ⟨t, ht, -⟩ := (hadmits.row p hmem).1
  exact ⟨hmine p hmem, t, ht, hadmits.table hs.wf.placed ht⟩

/-- An autocommit `INSERT` applies all of its rows or none. -/
theorem executeInsert_keeps (insert : Insert) (hmine : insert.table ∈ locks)
    (htx : l₀.tx = none) (hstatement : l₀.statement = []) (hcommits : ¬ l₀.commits) :
    Obeys m ex policy i (Ready i locks l₀) (executeInsert engine insert)
      (fun _ s l => ∃ batch, (m.whole → insert.Batch m.store batch) ∧
        Ready i locks (l₀.after (.insertRows (insert.pairs batch))) s l)
      (StatementRefused i locks l₀) := by
  refine .bind (convertRows_keeps insert hmine) fun batch =>
    Triple.of_fact fun hbatch => ?_
  have hcall : Obeys m ex policy i (Ready i locks l₀)
      (call (.insertRows (insert.pairs batch)))
      (fun _ => Ready i locks (l₀.after (.insertRows (insert.pairs batch)))) (CallFails i locks l₀) := by
    refine call_triple (fun _ _ _ => Ready.rely) (fun _ _ h => h) (fun s l _ h hl => ?_)
      (fun s l hs h hcheck => hs.admits_of_check (fun p hp => ?_) hcheck) hstatement ?_ ?_
    · exact absurd (by rwa [Conn.commits, ← h.like.current]) hcommits
    · obtain ⟨row, -, rfl⟩ := mem_map.mp hp
      exact (h.owns.owner _).mpr hmine
    · intro table hne
      simp [Conn.pending, htx] at hne
    · exact fun h => absurd h hcommits
  refine .bind (hcall.mono (fun s l h => ?_) (fun _ _ _ h => h)
    fun e s l h => ⟨h.1, h.2.1⟩) fun _ => .pure fun s l _ h => ⟨batch, hbatch, h⟩
  obtain ⟨schema, -, hknows⟩ := h
  exact hknows.ready

def Conn.buffered (l : Conn) (rows : List (String × Row)) : Conn :=
  { l with tx := some ((l.tx.getD .new).pushAll rows), statement := l.statement ++ rows }

theorem Conn.pending_buffered (l : Conn) (rows : List (String × Row)) (table : String) :
    (l.buffered rows).pending table = l.pending table ++ rowsFor table rows :=
  Transaction.rows_pushAll _ rows table

theorem Conn.buffered_append (l : Conn) (rows rows' : List (String × Row)) :
    (l.buffered rows).buffered rows' = l.buffered (rows ++ rows') := by
  simp [Conn.buffered, Transaction.pushAll]

theorem buffer_of_keyFree {store : Store} {tx : Transaction} {row : Row}
    (hrow : row.length = schema.columns.length)
    (hfree : ∀ k key, schema.keyIndex = some k → row[k]? = some key →
      Transaction.View.KeyFree ⟨store, tx⟩ table k key) :
    Transaction.buffer store tx schema table row = .ok (tx.push table row) := by
  cases hk : schema.keyIndex with
  | none => simp [Transaction.buffer, hk]
  | some k =>
    have hlt : k < row.length := hrow ▸ Table.keyIndex_lt hk
    have hcell : row[k]? = some row[k] := List.getElem?_eq_getElem hlt
    obtain ⟨hlookup, hpending⟩ := hfree k row[k] hk hcell
    rw [Transaction.buffer_keyed hk hcell, hlookup, ok_bind,
      Transaction.findKey_eq_none.mpr hpending]
    rfl

/-- A row is buffered, or the statement stops at it. -/
theorem buffer_triple {row : Row} (hrow : row.length = schema.columns.length) (htx : l₀.tx.isSome) :
    Obeys m ex policy i (Knows i locks l₀ table schema)
      (perform (.buffer schema table row))
      (fun _ => Knows i locks (l₀.buffered [(table, row)]) table schema)
      (fun e s l => e ≠ none ∧ Knows i locks l₀ table schema s l ∧
        (m.whole → l₀.statement = [])) := by
  have hadmits : ∀ s l, Knows i locks l₀ table schema s l →
      ∃ t, s.store.tables.lookup table = some t ∧ t.schema = schema ∧
        t.AdmitsRows (l.pending table) := by
    intro s l h
    obtain ⟨t, ht, hschema⟩ := h.known
    by_cases hnil : l.pending table = []
    · exact ⟨t, ht, hschema, hnil ▸ .nil t⟩
    · obtain ⟨-, u, hu, hrows⟩ := h.ready.owns.pending table hnil
      cases ht.symm.trans hu
      exact ⟨t, ht, hschema, hrows⟩
  refine perform_triple (fun _ _ _ => Knows.rely) (fun s l _ h => ?_) ?_
  · exact ⟨by rw [h.ready.like.tx]; exact htx, hrow, hadmits s l h⟩
  · intro s l choice r s' l' hinv h hmay hrun
    obtain ⟨t, ht, rfl, hpending⟩ := hadmits s l h
    obtain ⟨⟨hlike, howns, hphase⟩, hmine, hknown⟩ := h
    have hpost := Transaction.buffer_post ht (hinv.ranged table t ht) hpending hrow
    simp only [Operation.run] at hrun
    split at hrun
    · rename_i tx hbuffer
      cases hrun
      rw [hbuffer] at hpost
      obtain ⟨htx', hrows⟩ := hpost
      refine ⟨⟨{ hlike with tx := ?_, statement := ?_ }, ⟨howns.owner, ?_⟩, hphase⟩, hmine, hknown⟩
      · rw [htx', hlike.tx]
        rfl
      · rw [hlike.statement]
        rfl
      · intro other hne
        simp only [Conn.pending, Option.getD_some, htx', Transaction.rows_push] at hne ⊢
        split
        · rename_i heq
          subst heq
          exact ⟨(howns.owner other).mpr hmine, t, ht, hrows⟩
        · rename_i hother
          rw [if_neg hother] at hne
          exact howns.pending other hne
    · rename_i e hbuffer
      cases hrun
      refine ⟨Option.some_ne_none _, ⟨⟨hlike, ⟨howns.owner, howns.pending⟩, hphase⟩, hmine, hknown⟩, fun hwhole => ?_⟩
      by_contra hne
      have hok := buffer_of_keyFree hrow (hmay hwhole (by rwa [hlike.statement]))
      cases hbuffer.symm.trans hok
    · rename_i hpanic
      exact absurd hpanic hpost.ne_panic

theorem Conn.buffered_nil {l : Conn} (htx : l.tx.isSome) : l.buffered [] = l := by
  obtain ⟨tx, htx⟩ := Option.isSome_iff_exists.mp htx
  have hpush : some ((l.tx.getD .new).pushAll []) = l.tx := by
    rw [htx]
    rfl
  unfold Conn.buffered
  rw [hpush, append_nil]

/-- In whole-statement mode a refusal means that nothing of the statement is buffered. -/
def BufferStops (m : Mode) (i : Nat) (locks : List String) (l₀ : Conn) (e : Option Error) (s : Db)
    (l : Conn) : Prop :=
  e ≠ none ∧ ∃ rows, Ready i locks (l₀.buffered rows) s l ∧ (m.whole → l₀.statement ++ rows = [])

theorem insertEach_keeps {rows : List Row} (hrows : HaveWidth schema.columns.length rows)
    (htx : l₀.tx.isSome) :
    Obeys m ex policy i (Knows i locks l₀ table schema)
      (Storage.insertEach Overlay.insertRow (rows.map fun row => (table, row)))
      (fun _ => Ready i locks (l₀.buffered (rows.map fun row => (table, row))))
      (BufferStops m i locks l₀) := by
  induction rows generalizing l₀ with
  | nil =>
    refine .pure fun s l _ h => ?_
    rw [map_nil, Conn.buffered_nil htx]
    exact h.ready
  | cons row rows ih =>
    have hrow := hrows row mem_cons_self
    have hbuffer : Obeys m ex policy i (Knows i locks l₀ table schema)
        (Overlay.insertRow table row)
        (fun _ => Knows i locks (l₀.buffered [(table, row)]) table schema)
        (BufferStops m i locks l₀) := by
      refine .bind tableSchema_known fun found => .of_fact fun heq => ?_
      subst heq
      refine .ite (fun hne => absurd hrow hne) fun _ => ?_
      refine (buffer_triple hrow htx).fail fun e s l h => ⟨h.1, [], ?_, fun hwhole => ?_⟩
      · rw [Conn.buffered_nil htx]
        exact h.2.1.ready
      · rw [h.2.2 hwhole, append_nil]
    refine .bind hbuffer fun _ => ?_
    have hrest := ih (fun r hr => hrows r (mem_cons_of_mem row hr))
      (show (l₀.buffered [(table, row)]).tx.isSome from rfl)
    refine hrest.mono (fun _ _ h => h) (fun _ s l h => ?_) fun e s l h => ?_
    · rw [Conn.buffered_append] at h
      exact h
    · obtain ⟨he, done, hready, hwhole⟩ := h
      rw [Conn.buffered_append] at hready
      refine ⟨he, [(table, row)] ++ done, hready, fun hw => ?_⟩
      rw [← append_assoc]
      exact hwhole hw

theorem executeInsert_overlay (insert : Insert) (hmine : insert.table ∈ locks)
    (htx : l₀.tx.isSome) (hstatement : l₀.statement = []) :
    Obeys m ex policy i (Ready i locks l₀) (executeInsert overlay insert)
      (fun _ s l => ∃ batch, (m.whole → insert.Batch m.store batch) ∧
        Ready i locks (l₀.buffered (insert.pairs batch)) s l) (BufferStops m i locks l₀) := by
  have hconvert : Obeys m ex policy i (Ready i locks l₀) (convertRows overlay insert)
      (fun batch s l => (m.whole → insert.Batch m.store batch) ∧
        ∃ schema, HaveWidth schema.columns.length batch ∧
          Knows i locks l₀ insert.table schema s l) (BufferStops m i locks l₀) := by
    refine (convertRows_keeps insert hmine).fail fun e s l h => ⟨h.1, [], ?_, fun _ => ?_⟩
    · rw [Conn.buffered_nil htx]
      exact h.2
    · rw [hstatement, append_nil]
  refine .bind hconvert fun batch => .of_fact fun hbatch =>
    Triple.of_exists fun schema => .of_fact fun hwidth => ?_
  refine .bind (insertEach_keeps hwidth htx) fun _ => ?_
  exact .pure fun s l _ h => ⟨batch, hbatch, h⟩

variable {rows : List (String × Row)}

/-- The transaction is over and its locks are released. -/
def Conn.ended (l : Conn) (why : Release) (statement : List (String × Row)) : Conn :=
  { l with
    tx := none, locked := [], applied := [], statement, answered := l.answeredFor why l.locked }

theorem commit_checks {s : Db} (hs : s.Ok) (h : s.Admits i (rowsFor · rows)) :
    check s.store (.insertRows rows) = .ok (decide (rows ≠ [])) := by
  refine check_of_tables hs.wf.placed fun p hp => ?_
  obtain ⟨-, t, ht, hadmits⟩ := h p.1 (ne_nil_of_mem (mem_rowsFor hp))
  exact ⟨t, ht, hadmits⟩

/-- The pending rows of a transaction go through as one call, unless the log fails. -/
theorem commitCall_keeps {locks : List String} (htx : l₀.tx = none)
    (hstatement : l₀.statement = []) :
    Obeys m ex policy i
      (fun s l => Ready i locks l₀ s l ∧ s.Admits i (rowsFor · rows)) (call (.insertRows rows))
      (fun _ => Ready i locks (l₀.after (.insertRows rows))) (CallFails i locks l₀) := by
  refine call_triple (fun _ _ _ h hrely => ⟨h.1.rely hrely, h.2.rely hrely⟩) (fun _ _ h => h.1)
    (fun s l hs h _ => ⟨_, commit_checks hs h.2⟩) (fun _ _ _ h _ => h.2) hstatement ?_
    fun _ => ⟨rows, rfl⟩
  intro table hne
  simp [Conn.pending, htx] at hne

/-- How a `COMMIT` fails: with the answer of the log, and the transaction is over. -/
def CommitFails (i : Nat) (l₀ : Conn) (e : Option Error) (s : Db) (l : Conn) : Prop :=
  ∃ x, e = some x ∧ l.ack = some (.err x) ∧
    ∃ statement, Ready i [] (l₀.ended (.commit false) statement) s l

/-- A `COMMIT` releases its locks whether or not its rows were written. -/
theorem commitLocked_keeps (hsteady : l₀.Steady) (haccounted : l₀.Accounted m l₀.work)
    (hstatement : l₀.statement = []) (hcommits : l₀.commits)
    (hpending : ∀ table, rowsFor table rows = l₀.pending table) :
    Obeys m ex policy i
      (fun s l => Ready i l₀.locked l₀.closed s l ∧ s.Admits i (rowsFor · rows))
      (do
        let result ← (call (.insertRows rows)).attempt
        releaseAll (.commit result.isOk) l₀.locked
        .done result)
      (fun _ s l => ∃ statement, Ready i [] (l₀.ended (.commit true) statement) s l)
      (CommitFails i l₀) := by
  have hlocked : ∀ s l, Ready i l₀.locked l₀.closed s l ∧ s.Admits i (rowsFor · rows) →
      (∀ p ∈ rows, p.1 ∈ l₀.locked) ∧
        Ready i l₀.locked l₀.closed s l ∧ s.Admits i (rowsFor · rows) := by
    intro s l h
    refine ⟨fun p hp => (h.1.owns.owner p.1).mp ?_, h⟩
    exact (h.2 p.1 (ne_nil_of_mem (mem_rowsFor hp))).1
  refine (Triple.of_fact fun hin => ?_).pre hlocked
  refine .bind (Triple.attempt (commitCall_keeps rfl hstatement))
    fun result => ?_
  cases result with
  | ok u =>
    have hrelease : Obeys m ex policy i
        (fun s l => Ready i l₀.locked (l₀.closed.after (.insertRows rows)) s l ∧ True)
        (releaseAll (.commit true) l₀.locked)
        (fun _ s l => Ready i [] (l₀.ended (.commit true) rows) s l ∧ True)
        (CommitFails i l₀) := by
      have happlied : (l₀.closed.after (.insertRows rows)).applied = rows := by
        show l₀.applied ++ rows = rows
        rw [hsteady.applied, nil_append]
      refine releaseAll_triple (F := fun _ => True) hsteady.nodup (fun _ => rfl)
        (fun hwhole table _ => ?_) fun p hp => hin p (happlied ▸ hp)
      rw [happlied, hpending]
      exact haccounted.pending hwhole table
    refine .bind (hrelease.pre fun _ _ h => ⟨h, trivial⟩) fun _ => ?_
    exact .done fun s l _ h => ⟨rows, h.1⟩
  | err x =>
    have hrelease : Obeys m ex policy i
        (fun s l => Ready i l₀.locked l₀.closed s l ∧ l.ack = some (.err x))
        (releaseAll (.commit false) l₀.locked)
        (fun _ s l => Ready i [] (l₀.ended (.commit false) l₀.statement) s l ∧
          l.ack = some (.err x)) (CommitFails i l₀) := by
      have happlied : l₀.closed.applied = [] := hsteady.applied
      refine releaseAll_triple (F := fun ack => ack = some (.err x)) hsteady.nodup (fun _ => rfl)
        (fun _ table _ => ?_) fun p hp => ?_
      · rw [happlied]
        exact .nil
      · rw [happlied] at hp
        cases hp
    refine .bind (hrelease.pre fun s l h => ⟨h.2.1, ?_⟩) fun _ => ?_
    · obtain ⟨y, hy, hack⟩ := h.2.2 hcommits
      cases hy
      exact hack
    · exact .done fun s l _ h => ⟨x, rfl, h.2, l₀.statement, h.1⟩
  | panic => exact fun s l _ h => absurd rfl h.1

theorem Ready.ended {s : Db} {l : Conn} (h : Ready i l₀.locked l₀ s l) (hsteady : l₀.Steady)
    (htx : l₀.tx = none) (why : Release) : Ready i [] (l₀.ended why l₀.statement) s l := by
  have hlocked := hsteady.closed htx
  rw [hlocked] at h
  have hnone : l₀.answeredFor why l₀.locked = l₀.answered := by
    funext table
    simp [Conn.answeredFor, hlocked]
  refine ⟨?_, h.owns, h.phase⟩
  exact { h.like with
    tx := h.like.tx.trans htx
    locked := h.like.locked.trans hlocked
    applied := h.like.applied.trans hsteady.applied
    answered := h.like.answered.trans hnone.symm }

theorem commitTransaction_keeps (hsteady : l₀.Steady) (haccounted : l₀.Accounted m l₀.work)
    (hstatement : l₀.statement = []) (hcommits : l₀.commits) :
    Obeys m ex policy i (Ready i l₀.locked l₀) commitTransaction
      (fun _ s l => ∃ statement, Ready i [] (l₀.ended (.commit true) statement) s l)
      (CommitFails i l₀) := by
  refine .bind take_triple fun taken => ?_
  cases taken with
  | none =>
    refine .pure fun s l _ h => ?_
    cases h with
    | none htx hready => exact ⟨l₀.statement, hready.ended hsteady htx _⟩
  | some p =>
    obtain ⟨rows, locks⟩ := p
    refine .pre (P := fun s l => (locks = l₀.locked ∧
      ∀ table, rowsFor table rows = l₀.pending table) ∧
      Ready i l₀.locked l₀.closed s l ∧ s.Admits i (rowsFor · rows)) ?_ ?_
    · refine .of_fact fun hfacts => ?_
      obtain ⟨rfl, hpending⟩ := hfacts
      exact commitLocked_keeps hsteady haccounted hstatement hcommits hpending
    · intro s l h
      cases h with
      | some hpending hready hadmits => exact ⟨⟨rfl, hpending⟩, hready, hadmits⟩

end

end MysqlRust
