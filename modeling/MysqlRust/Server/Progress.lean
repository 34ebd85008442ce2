import MysqlRust.Server.GroupCommit

/-! # Statements end

Whatever the other connections hold or have left undone, a statement comes to its end by its own
steps and those of the log writer, and leaves no lock but those of an open transaction.
-/
namespace MysqlRust

open List Function

section

/-- Where a running program is: whether the log owes it an answer, whether a transaction is open,
and the locks beyond those of the transaction that it has to release. -/
structure Standing where
  waiting : Bool
  tx : Bool
  held : List String

def Standing.Final (t : Standing) : Prop := t.waiting = false ∧ t.held = []

/-- The answer of the log is received once for every record that is handed to it, and a program
releases locks that it holds. -/
def turns : Prog.Rules Operation Operation.Resp Error Standing where
  may t
    | .receive => t.waiting = true
    | .unlock table _ => t.waiting = false ∧ table ∈ t.held
    | .buffer _ _ _ => t.waiting = false ∧ t.tx = true
    | .openTransaction => t.waiting = false ∧ t.tx = false
    | _ => t.waiting = false
  next t
    | .submit _, r => some { t with waiting := r.isOk }
    | .receive, _ => some { t with waiting := false }
    | .lock table, r => some (if r.isOk && !t.tx then { t with held := table :: t.held } else t)
    | .unlock table _, .ok _ => some { t with held := t.held.erase table }
    | .openTransaction, .ok _ => some { t with tx := true }
    | .takeTransaction, .ok (some p) => some { t with tx := false, held := p.2 ++ t.held }
    | .takeTransaction, .ok none => if t.tx then none else some t
    | .unlock _ _, _ | .openTransaction, _ | .takeTransaction, _ => none
    | _, _ => some t

abbrev Orderly {α : Type} (t : Standing) (x : Program α) : Prop := x.Keeps turns (· = t) t

structure Storage.InTurns (t : Standing) (storage : Storage Program) : Prop where
  createTable : ∀ name columns key, Orderly t (storage.createTable name columns key)
  alterTable : ∀ name change, Orderly t (storage.alterTable name change)
  tableSchema : ∀ table, Orderly t (storage.tableSchema table)
  insertRows : ∀ rows, Orderly t (storage.insertRows rows)
  scan : ∀ table, Orderly t (storage.scan table)
  scanFiltered : ∀ table filter, Orderly t (storage.scanFiltered table filter)
  lookupByPrimaryKey : ∀ table key, Orderly t (storage.lookupByPrimaryKey table key)
  nextAutoIncrement : ∀ table, Orderly t (storage.nextAutoIncrement table)
  createDatabase : ∀ name ifNotExists, Orderly t (storage.createDatabase name ifNotExists)
  dropDatabase : ∀ name ifExists, Orderly t (storage.dropDatabase name ifExists)

variable {t : Standing} {tx : Bool} {held : List String}

theorem perform_orderly {o : Operation} (hmay : turns.may t o)
    (hnext : ∀ r, turns.next t o r = some t) : Orderly t (perform o) :=
  ⟨hmay, fun r _ ht' => Option.some.inj (ht'.symm.trans (hnext r))⟩

theorem call_orderly (c : Call) : Orderly ⟨false, tx, held⟩ (call c) := by
  have hcheck : Orderly ⟨false, tx, held⟩ (perform (.check c)) := perform_orderly rfl fun _ => rfl
  refine hcheck.bind fun go => ?_
  cases go with
  | false => rfl
  | true =>
    refine ⟨rfl, ?_⟩
    rintro (_ | _ | _) _ ⟨⟩
    · have hreceive : (perform .receive).Keeps turns (· = ⟨false, tx, held⟩) ⟨true, tx, held⟩ :=
        ⟨rfl, fun r t' ht' => (Option.some.inj ht').symm⟩
      exact hreceive.bind fun _ => perform_orderly rfl fun _ => rfl
    · rfl
    · rfl

theorem engine_orderly : engine.InTurns ⟨false, tx, held⟩ where
  createTable _ _ _ := call_orderly _
  alterTable _ _ := call_orderly _
  tableSchema _ := perform_orderly rfl fun _ => rfl
  insertRows _ := call_orderly _
  scan _ := perform_orderly rfl fun _ => rfl
  scanFiltered _ _ := perform_orderly rfl fun _ => rfl
  lookupByPrimaryKey _ _ := perform_orderly rfl fun _ => rfl
  nextAutoIncrement _ := perform_orderly rfl fun _ => rfl
  createDatabase _ _ := call_orderly _
  dropDatabase _ _ := call_orderly _

theorem insertEach_orderly (rows : List (String × Row)) :
    Orderly ⟨false, true, held⟩ (Storage.insertEach Overlay.insertRow rows) := by
  induction rows with
  | nil => rfl
  | cons p rows ih =>
    refine .bind ?_ fun _ => ih
    refine (engine_orderly.tableSchema _).bind fun _ => .ite rfl ?_
    exact perform_orderly ⟨rfl, rfl⟩ fun _ => rfl

theorem pendingRows_orderly (table : String) :
    Orderly ⟨false, tx, held⟩ (perform (.pendingRows table)) := perform_orderly rfl fun _ => rfl

theorem overlay_orderly : overlay.InTurns ⟨false, true, held⟩ := { engine_orderly with
  insertRows := insertEach_orderly
  scan := fun _ => (engine_orderly.scan _).bind fun _ => (pendingRows_orderly _).bind fun _ => rfl
  scanFiltered := fun _ _ => by
    refine (engine_orderly.scanFiltered _ _).bind fun _ => (pendingRows_orderly _).bind fun _ => ?_
    exact .bind rfl fun _ => rfl
  lookupByPrimaryKey := fun table key => by
    refine (engine_orderly.lookupByPrimaryKey _ _).bind fun committed => ?_
    cases committed with
    | some row => rfl
    | none =>
      refine (engine_orderly.tableSchema _).bind fun schema => ?_
      cases TableSchema.keyIndex schema with
      | none => rfl
      | some pkIdx => exact (pendingRows_orderly _).bind fun _ => rfl }

variable {storage : Storage Program}

theorem executeInsert_orderly (h : storage.InTurns t) (insert : Insert) :
    Orderly t (executeInsert storage insert) := by
  have hvalue (table : String) (p : Expr × ColumnSchema) :
      Orderly t (insertValue storage table p) := by
    refine .bind rfl fun value => .bind ?_ fun value => ?_
    · exact .ite ((h.nextAutoIncrement table).map _) rfl
    · exact .ite rfl rfl
  refine .bind ?_ fun batch => (h.insertRows _).bind fun _ => rfl
  refine (h.tableSchema _).bind fun schema => .mapM (fun row => ?_) _
  exact .bind rfl fun _ => .mapM (hvalue insert.table) _

theorem resolveFrom_orderly (h : storage.InTurns t) (clause : FromClause)
    (selection : Option Condition) : Orderly t (resolveFrom storage clause selection) := by
  have hjoin (acc : Scope × List Row) (join : JoinClause) :
      Orderly t (joinTable storage acc join) := by
    refine (h.tableSchema _).bind fun schema => .bind rfl fun _ => ?_
    exact (h.scan _).bind fun _ => .bind rfl fun _ => rfl
  have hscan (schema : TableSchema) : Orderly t (scanAndFilter storage clause.table.name
      clause.table.qualifier schema selection) := by
    cases selection with
    | none => exact h.scan _
    | some cond =>
      refine .bind rfl fun colIdx => .bind rfl fun column => ?_
      refine .bind rfl fun expected => ?_
      exact .ite ((h.lookupByPrimaryKey _ _).bind fun _ => rfl) (h.scanFiltered _ _)
  refine .ite ((h.tableSchema _).bind fun schema => (hscan schema).bind fun _ => rfl) ?_
  refine .bind ?_ fun p => .bind rfl fun _ => rfl
  exact (h.tableSchema _).bind fun schema => (h.scan _).bind fun rows => .foldlM hjoin _ _

theorem executeOn_orderly (ex : Executor) (h : storage.InTurns t) (st : Statement) :
    Orderly t (executeOn ex storage st) := by
  cases st with
  | select query =>
    show Orderly t (executeSelect ex storage query)
    unfold executeSelect
    split
    · rfl
    · exact (resolveFrom_orderly h _ _).bind fun p => .ite rfl rfl
  | createTable table columns =>
    refine .map (.map ?_ _) _
    exact .bind rfl fun _ => h.createTable _ _ _
  | insert rows => exact (executeInsert_orderly h rows).map _
  | createDatabase name ifNotExists => exact ((h.createDatabase name ifNotExists).map _).map _
  | dropDatabase name ifExists => exact ((h.dropDatabase name ifExists).map _).map _
  | alterTable table action =>
    refine .map (.map ?_ _) _
    exact .bind rfl fun _ => h.alterTable _ _
  | _ => rfl

theorem releaseAll_turns (why : Release) (tables : List String) :
    (releaseAll why tables).Keeps turns (· = ⟨false, tx, []⟩) ⟨false, tx, tables⟩ := by
  induction tables with
  | nil => rfl
  | cons table tables ih =>
    refine ⟨⟨rfl, mem_cons_self⟩, ?_⟩
    rintro (_ | _ | _) _ ⟨⟩
    rwa [erase_cons_head]

theorem taken_turns {α : Type} {f : Option (List (String × Row) × List String) → Program α}
    (hnone : Orderly ⟨false, false, []⟩ (f none)) (hsome : ∀ rows locks,
      (f (some (rows, locks))).Keeps turns (· = ⟨false, false, []⟩) ⟨false, false, locks⟩) :
    (perform .takeTransaction >>= f).Keeps turns (· = ⟨false, false, []⟩) ⟨false, tx, []⟩ := by
  refine ⟨rfl, ?_⟩
  rintro ((_ | ⟨rows, locks⟩) | _ | _) t' ht'
  · cases tx with
    | false =>
      cases ht'
      exact hnone
    | true => cases ht'
  · cases ht'
    rw [append_nil]
    exact hsome rows locks
  · cases ht'
  · cases ht'

theorem dropTransaction_turns :
    dropTransaction.Keeps turns (· = ⟨false, false, []⟩) ⟨false, tx, []⟩ :=
  taken_turns rfl fun _ locks => releaseAll_turns .abandoned locks

theorem commitTransaction_turns :
    commitTransaction.Keeps turns (· = ⟨false, false, []⟩) ⟨false, tx, []⟩ := by
  refine taken_turns rfl fun rows locks => (call_orderly (.insertRows rows)).attempt_bind ?_
  rintro r _ rfl
  exact (releaseAll_turns _ locks).bind fun _ => rfl

theorem final_of_eq {α : Type} {x : Program α} (h : x.Keeps turns (· = ⟨false, tx, []⟩) t) :
    x.Keeps turns Standing.Final t :=
  h.mono fun _ ht => ht ▸ ⟨rfl, rfl⟩

theorem insertAutocommit_turns (ex : Executor) (rows : Insert) :
    Orderly ⟨false, false, []⟩ (insertAutocommit ex rows) := by
  refine ⟨rfl, ?_⟩
  rintro (_ | _ | _) _ ⟨⟩
  · refine (executeOn_orderly ex engine_orderly (.insert rows)).attempt_bind ?_
    rintro r _ rfl
    refine ⟨⟨rfl, mem_cons_self⟩, ?_⟩
    rintro (_ | _ | _) _ ⟨⟩
    exact congrArg (Standing.mk false false) (erase_cons_head ..)
  · rfl
  · rfl

theorem executeStatement_turns (ex : Executor) (l : Conn) (st : Statement) :
    (executeStatement ex l st).Keeps turns Standing.Final ⟨false, l.tx.isSome, []⟩ := by
  have hon : Orderly ⟨false, l.tx.isSome, []⟩
      (executeOn ex (if l.tx.isSome then overlay else engine) st) := by
    split
    · rename_i htx
      rw [htx]
      exact executeOn_orderly ex overlay_orderly st
    · exact executeOn_orderly ex engine_orderly st
  cases st with
  | begin =>
    refine (commitTransaction_turns.bind_of ?_ ?_).map _
    · rintro _ _ rfl
      refine ⟨⟨rfl, rfl⟩, ?_⟩
      rintro (_ | _ | _) _ ⟨⟩
      exact ⟨rfl, rfl⟩
    · rintro _ rfl
      exact ⟨rfl, rfl⟩
  | commit => exact final_of_eq (commitTransaction_turns.map _)
  | rollback => exact final_of_eq (dropTransaction_turns.map _)
  | insert rows =>
    simp only [executeStatement]
    split
    · rename_i htx
      rw [htx]
      have hinsert : Orderly ⟨false, true, []⟩ (executeOn ex overlay (.insert rows)) :=
        executeOn_orderly ex overlay_orderly _
      have hlock : Orderly ⟨false, true, []⟩ (perform (.lock rows.table)) :=
        perform_orderly rfl fun r => by simp [turns]
      exact final_of_eq (.ite hinsert (hlock.bind fun _ => hinsert))
    · rename_i htx
      rw [Bool.eq_false_iff.mpr htx]
      exact final_of_eq (insertAutocommit_turns ex rows)
  | _ => exact final_of_eq hon

theorem Command.program_turns (ex : Executor) (l : Conn) (command : Command) :
    (command.program ex l).Keeps turns Standing.Final ⟨false, l.tx.isSome, []⟩ := by
  cases command with
  | execute st =>
    refine (executeStatement_turns ex l st).attempt_bind ?_
    rintro r ⟨_, tx, _⟩ ⟨rfl, rfl⟩
    cases r with
    | ok r => exact ⟨rfl, rfl⟩
    | err e => exact ⟨rfl, rfl⟩
    | panic => exact final_of_eq (dropTransaction_turns.bind fun _ => rfl)
  | disconnect => exact final_of_eq (dropTransaction_turns.map _)

variable {i j : Nat} {s s' : Db} {l l' : Conn} {o : Operation} {policy : SyncPolicy}
variable {e : WriterEvent}

def Writer.Loaded : Writer → Prop
  | .idle => True
  | .drained batch => batch ≠ []
  | .acking _ rest => rest ≠ []

/-- The connection has an answer of the log or is going to get one. -/
def Db.Expects (s : Db) (i : Nat) : Prop :=
  i ∈ s.waiting.map Request.conn ∨ Awaits s.writer s.mailbox i

theorem Operation.Effect.expects (h : o.Effect j s l s' l') (hj : j ≠ i) (hi : s.Expects i) :
    s'.Expects i := by
  cases h with
  | submitted =>
    refine hi.imp_left fun hmem => ?_
    rw [Db.waiting, ← append_assoc, map_append]
    exact mem_append_left _ hmem
  | received =>
    refine hi.imp_right fun hawaits => hawaits.imp_left fun hmail => ?_
    dsimp only
    rwa [update_of_ne hj.symm]
  | _ => exact hi

theorem Operation.Effect.writer (h : o.Effect j s l s' l') : s'.writer = s.writer := by
  cases h <;> rfl

theorem Db.Writes.expects (h : s.Writes policy e s') (hi : s.Expects i) : s'.Expects i := by
  rw [Db.Expects, Db.waiting] at hi ⊢
  cases h with
  | @drained n idle pos le =>
    rw [idle] at hi
    exact hi.imp_left fun hmem => (take_append_drop n s.channel).symm ▸ hmem
  | @written io batch framed result drained framed_eq result_eq =>
    rw [drained, Writer.batch, map_append, mem_append, or_assoc] at hi
    rcases hi with hmem | hmem | hmail | hmem
    · exact .inr (.inr hmem)
    · exact .inl hmem
    · exact .inr (.inl hmail)
    · cases hmem
  | @acked result r rest acking =>
    by_cases hr : i = r.conn
    · exact .inr (.inl (by simp [hr]))
    · rw [acking] at hi
      by_cases hrest : rest = [] <;>
        simpa [Awaits, Writer.batch, Writer.answering, hrest, hr] using hi

theorem Db.Writes.loaded (h : s.Writes policy e s') (hs : s.writer.Loaded) : s'.writer.Loaded := by
  cases h with
  | @drained n idle pos le =>
    refine ne_nil_of_length_pos ?_
    rw [length_take]
    exact lt_min pos (pos.trans_le le)
  | @written io batch framed result drained framed_eq result_eq =>
    rwa [drained] at hs
  | @acked result r rest acking =>
    dsimp only
    split_ifs with hrest
    · trivial
    · exact hrest

/-- The writer that is left alone comes to rest. -/
theorem Db.rests (policy : SyncPolicy) (hs : s.writer.Loaded) :
    ∃ (es : List WriterEvent) (s' : Db), es.foldlM (Db.writerStep policy) s = some s' ∧
      s'.writer = .idle ∧ s'.channel = [] := by
  have hfirst : ∃ es rs, s.Answers policy es rs := by
    cases hwriter : s.writer with
    | idle => exact ⟨[], [], s, rfl, hwriter, (append_nil _).symm, rfl⟩
    | drained batch =>
      rw [hwriter] at hs
      exact ⟨_, _, Db.answers_drained policy hs hwriter⟩
    | acking result rest =>
      rw [hwriter] at hs
      exact ⟨_, _, Db.answers_acking policy hs hwriter⟩
  obtain ⟨es, rs, s₁, hrun, hidle, -, -⟩ := hfirst
  by_cases hnil : s₁.channel = []
  · exact ⟨es, s₁, hrun, hidle, hnil⟩
  · let s₂ : Db := { s₁ with channel := [], writer := .drained s₁.channel }
    have hdrain : s₁.writerStep policy (.drain s₁.channel.length) = some s₂ := by
      rw [Db.writerStep, hidle]
      dsimp only
      rw [if_pos ⟨length_pos_iff.mpr hnil, le_rfl⟩, drop_length, take_length]
    obtain ⟨s₃, hrun₃, hidle₃, -, hchannel⟩ := Db.answers_drained policy hnil (s := s₂) rfl
    have hrest := (Runs.foldlM_cons_of_some hdrain _).trans hrun₃
    exact ⟨_, s₃, (Runs.foldlM_append_of_some hrun _).trans hrest, hidle₃, hchannel⟩

/-- With nothing left to the writer every operation can be performed. -/
theorem Operation.run_of_rest (o : Operation) (l : Conn) (hidle : s.writer = .idle)
    (hchannel : s.channel = []) (hgets : o = .receive → s.Expects i) :
    ∃ choice r s' l', o.run i choice s l = some (r, s', l') := by
  refine ⟨⟨true, (l.tx.getD .new).pending.keys.toList⟩, ?_⟩
  cases o with
  | lock table | tableSchema table | apply c | buffer schema table row =>
    simp only [Operation.run]
    split
    all_goals exact ⟨_, _, _, rfl⟩
  | submit c =>
    simp only [Operation.run, hchannel]
    exact ⟨_, _, _, rfl⟩
  | receive =>
    obtain ⟨result, hmail⟩ : ∃ result, s.mailbox i = some result := by
      simpa [Db.Expects, Awaits, Db.waiting, hidle, hchannel, Writer.batch, Writer.answering,
        Option.ne_none_iff_exists'] using hgets rfl
    simp only [Operation.run, hmail]
    exact ⟨_, _, _, rfl⟩
  | takeTransaction =>
    cases htx : l.tx with
    | none =>
      simp only [Operation.run, htx]
      exact ⟨_, _, _, rfl⟩
    | some tx =>
      have horder : tx.Order tx.pending.keys.toList :=
        ⟨Finset.nodup_toList _, Finset.toList_toFinset _⟩
      simp only [Operation.run, htx, Option.getD_some, if_pos horder]
      exact ⟨_, _, _, rfl⟩
  | _ => exact ⟨_, _, _, rfl⟩

variable {ex : Executor} {store : Store} {file : List UInt8} {w w' : World}

/-- The connection owns the locks of its transaction and those its program has to release. -/
structure Standing.Fits (i : Nat) (owner : String → Option Nat) (opened : Bool) (locked : List String)
    (t : Standing) : Prop where
  tx : t.tx = opened
  closed : opened = false → locked = []
  nodup : (locked ++ t.held).Nodup
  owner : ∀ table, owner table = some i ↔ table ∈ locked ++ t.held

theorem Standing.Fits.lock {owner : String → Option Nat} {locked locked' : List String} {table : String}
    {t' : Standing} (h : t.Fits i owner tx locked) (hfree : owner table = none) (htx : t'.tx = t.tx)
    (hclosed : tx = false → locked' = [])
    (hlocks : locked' ++ t'.held ~ table :: (locked ++ t.held)) :
    t'.Fits i (update owner table (some i)) tx locked' := by
  refine ⟨htx.trans h.tx, hclosed, ?_, fun other => ?_⟩
  · refine hlocks.nodup_iff.mpr (nodup_cons.mpr ⟨fun hmem => ?_, h.nodup⟩)
    cases hfree.symm.trans ((h.owner table).mpr hmem)
  · rw [hlocks.mem_iff, mem_cons, ← h.owner other]
    by_cases heq : other = table <;> simp [heq]

theorem Standing.Fits.unlock {owner : String → Option Nat} {locked : List String} {table : String}
    (h : t.Fits i owner tx locked) (hheld : table ∈ t.held) :
    Standing.Fits i (update owner table none) tx locked
      { t with held := t.held.erase table } := by
  obtain ⟨-, hnodup, hdisjoint⟩ := nodup_append.mp h.nodup
  refine ⟨h.tx, h.closed, h.nodup.sublist (erase_sublist.append_left _), fun other => ?_⟩
  by_cases heq : other = table
  · subst heq
    have hlocked : other ∉ locked := fun hmem => hdisjoint other hmem other hheld rfl
    simp [hnodup.mem_erase_iff, hlocked]
  · rw [update_of_ne heq, h.owner other, mem_append, mem_append, mem_erase_of_ne heq]

/-- An operation in turn moves locks and transaction as its turn says. -/
theorem Operation.run_fits {choice : Choice} {r : Outcome Error o.Resp}
    (h : o.run i choice s l = some (r, s', l')) (hmay : turns.may t o)
    (hfits : t.Fits i s.owner l.tx.isSome l.locked) :
    ∃ t' ∈ turns.next t o r, t'.Fits i s'.owner l'.tx.isSome l'.locked := by
  cases o with
  | lock table =>
    simp only [Operation.run] at h
    split at h
    · rename_i hfree
      cases h
      cases htx : l.tx.isSome with
      | true =>
        refine ⟨t, by simp [turns, hfits.tx, htx], hfits.lock hfree rfl (by simp [htx]) ?_⟩
        rw [if_pos rfl, append_assoc]
        exact perm_middle
      | false =>
        refine ⟨{ t with held := table :: t.held }, ?_, hfits.lock hfree rfl hfits.closed perm_middle⟩
        simp [turns, hfits.tx, htx, Outcome.isOk]
    · split at h <;> cases h
      exact ⟨t, rfl, hfits⟩
  | unlock table why =>
    cases h
    exact ⟨_, rfl, hfits.unlock hmay.2⟩
  | buffer schema table row =>
    simp only [Operation.run] at h
    split at h <;> cases h
    · exact ⟨t, rfl, { hfits with tx := hmay.2, closed := by simp }⟩
    · exact ⟨t, rfl, hfits⟩
    · exact ⟨t, rfl, hfits⟩
  | openTransaction =>
    cases h
    obtain ⟨htx, hclosed, hnodup, howner⟩ := hfits
    rw [hclosed (htx.symm.trans hmay.2)] at hnodup howner
    exact ⟨_, rfl, ⟨rfl, fun _ => rfl, hnodup, howner⟩⟩
  | takeTransaction =>
    cases htx : l.tx with
    | none =>
      simp only [Operation.run, htx] at h
      cases h
      exact ⟨t, by simp [turns, hfits.tx, htx], hfits⟩
    | some tx =>
      simp only [Operation.run, htx] at h
      split_ifs at h
      cases h
      exact ⟨_, rfl, ⟨rfl, fun _ => rfl, hfits.nodup, hfits.owner⟩⟩
  | submit c =>
    simp only [Operation.run] at h
    split_ifs at h
    cases h
    exact ⟨_, rfl, { hfits with }⟩
  | receive =>
    simp only [Operation.run] at h
    split at h <;> cases h
    exact ⟨_, rfl, by split <;> exact { hfits with }⟩
  | tableSchema table | apply c =>
    simp only [Operation.run] at h
    split at h <;> cases h <;> exact ⟨t, rfl, hfits⟩
  | _ =>
    cases h
    exact ⟨t, rfl, hfits⟩

theorem waiting_of_next {t' : Standing} {r : Outcome Error o.Resp} (hmay : turns.may t o)
    (hnext : t' ∈ turns.next t o r) (hwaiting : t'.waiting = true) : ∃ c, o = .submit c := by
  cases o with
  | submit c => exact ⟨c, rfl⟩
  | _ => rcases r with (_ | _) | _ | _ <;> grind [turns]

/-- A program that is about to receive an answer is going to get one, and the locks of every
connection are those of its transaction and those it has to release. -/
structure World.InTurn (w : World) : Prop where
  loaded : w.shared.writer.Loaded
  turn : ∀ i, ∃ t : Standing,
    t.Fits i w.shared.owner (w.threads i).state.tx.isSome (w.threads i).state.locked ∧
      (t.waiting = true → w.shared.Expects i) ∧
      -- a connection at rest is where a program ends
      ((w.threads i).task.getD (.done .panic)).Keeps turns Standing.Final t

/-- No step of any thread brings a connection out of turn. -/
theorem World.InTurn.step {e : MachineEvent} (h : w.InTurn)
    (hstep : (machine ex policy).step w e = some w') : w'.InTurn := by
  -- the thread that moves goes on in turn; the others expect their answers and keep their locks
  have hset {i : Nat} {s : Db} {l : Conn} {task : Option (Program QueryResult)}
      (hloaded : s.writer.Loaded) (hothers : ∀ j, i ≠ j → w.shared.Expects j → s.Expects j)
      (howner : ∀ j ≠ i, ∀ table, s.owner table = some j ↔ w.shared.owner table = some j)
      (hthis : ∃ t : Standing, t.Fits i s.owner l.tx.isSome l.locked ∧
        (t.waiting = true → s.Expects i) ∧ (task.getD (.done .panic)).Keeps turns Standing.Final t) :
      World.InTurn (w.set i s l task) := by
    refine ⟨hloaded, fun j => ?_⟩
    by_cases hj : i = j
    · subst hj
      rw [Threads.World.set_same]
      exact hthis
    · rw [Threads.World.set_of_ne w i s l task (Ne.symm hj)]
      obtain ⟨t, hfits, hexpects, hkeeps⟩ := h.turn j
      refine ⟨t, { hfits with owner := fun table => ?_ },
        fun hwaiting => hothers j hj (hexpects hwaiting), hkeeps⟩
      exact (howner j (Ne.symm hj) table).trans (hfits.owner table)
  cases Threads.step_steps hstep with
  | @start i command hidle =>
    obtain ⟨t, hfits, -, hfinal⟩ := h.turn i
    rw [hidle] at hfinal
    obtain ⟨hwaiting, hheld⟩ : t.Final := hfinal
    refine hset h.loaded (fun _ _ hj => hj) (fun _ _ _ => .rfl) ⟨t, hfits, ?_, ?_⟩
    · rw [hwaiting]
      exact nofun
    · have hprogram := command.program_turns ex (w.threads i).state
      rwa [← hfits.tx, ← hwaiting, ← hheld] at hprogram
  | @perform i choice o k r s' l' htask hresult =>
    have heffect := Operation.run_effect hresult
    obtain ⟨t, hfits, -, hkeeps⟩ := h.turn i
    rw [htask] at hkeeps
    obtain ⟨t', hnext, hfits'⟩ := Operation.run_fits hresult hkeeps.1 hfits
    have hmine (table : String) (why : Release) (ho : o = .unlock table why) :
        w.shared.owner table = some i := by
      subst ho
      exact (hfits.owner table).mpr (mem_append_right _ hkeeps.1.2)
    refine hset (heffect.writer ▸ h.loaded) (fun j hj => heffect.expects hj)
      (fun j hj => heffect.owner hj hmine) ⟨t', hfits', fun hwaiting => ?_, hkeeps.2 r t' hnext⟩
    obtain ⟨c, rfl⟩ := waiting_of_next hkeeps.1 hnext hwaiting
    have hrun : (Operation.submit c).run i choice w.shared _ = some (r, s', l') := hresult
    simp only [Operation.run] at hrun
    split_ifs at hrun
    cases hrun
    refine .inl (mem_map.mpr ⟨⟨i, c⟩, mem_append_right _ ?_, rfl⟩)
    exact mem_append_right _ mem_cons_self
  | @finish i r htask =>
    obtain ⟨t, hfits, hexpects, hfinal⟩ := h.turn i
    rw [htask] at hfinal
    exact hset h.loaded (fun _ _ hj => hj) (fun _ _ _ => .rfl) ⟨t, hfits, hexpects, hfinal⟩
  | @outside e s' hresult =>
    have hwrites := Db.writerStep_writes hresult
    refine ⟨hwrites.loaded h.loaded, fun j => ?_⟩
    obtain ⟨t, hfits, hexpects, hkeeps⟩ := h.turn j
    refine ⟨t, ?_, fun hwaiting => hwrites.expects (hexpects hwaiting), hkeeps⟩
    cases hwrites <;> exact hfits

theorem World.InTurn.of_run
    (hrun : Runs.Reach (machine ex policy).step (fun _ _ => True) (World.start store file) w) :
    w.InTurn := by
  refine hrun.invariant ⟨trivial, fun i => ?_⟩ fun _ _ _ h _ hstep => h.step hstep
  refine ⟨⟨false, false, []⟩, ⟨rfl, fun _ => rfl, .nil, fun table => ?_⟩, nofun, rfl, rfl⟩
  simp [World.start, Db.start, Conn.fresh]

/-- The steps of one connection and of the log writer. -/
def Unaided (i : Nat) (_ : World) : MachineEvent → Prop
  | .perform j _ => j = i
  | .outside _ => True
  | .start _ _ | .finish _ => False

theorem reach_outside {es : List WriterEvent} {s : Db}
    (h : es.foldlM (Db.writerStep policy) w.shared = some s) :
    Runs.Reach (machine ex policy).step (Unaided i) w { w with shared := s } := by
  induction es generalizing w with
  | nil =>
    cases h
    exact .refl
  | cons e es ih =>
    obtain ⟨s₁, hs₁, hrun⟩ := Option.bind_eq_some_iff.mp h
    have hstep : (machine ex policy).step w (.outside e) = some { w with shared := s₁ } :=
      congrArg (Option.map _) hs₁
    exact .head ⟨.outside e, trivial, hstep⟩ (ih hrun)

/-- A connection in turn can always come to the end of its statement. -/
theorem World.InTurn.ends (h : w.InTurn) {x : Program QueryResult}
    (hx : (w.threads i).task = some x) : ∃ (w' : World) (r : Result QueryResult),
      Runs.Reach (machine ex policy).step (Unaided i) w w' ∧ w'.result i = some r := by
  induction x generalizing w with
  | done r =>
    refine ⟨w, r, .refl, ?_⟩
    rw [World.result, hx]
  | op o k ih =>
    -- the writer answers what it was asked, then the operation can be performed
    obtain ⟨es, s, hrests, hidle, hchannel⟩ := Db.rests policy h.loaded
    have hreach : Runs.Reach (machine ex policy).step (Unaided i) w { w with shared := s } :=
      reach_outside hrests
    have hrest : World.InTurn { w with shared := s } :=
      hreach.invariant h fun _ _ _ h _ hstep => h.step hstep
    obtain ⟨t, -, hexpects, hkeeps⟩ := hrest.turn i
    rw [hx] at hkeeps
    have hgets (ho : o = .receive) : s.Expects i := by
      subst ho
      exact hexpects hkeeps.1
    obtain ⟨choice, r, s', l', hrun⟩ :=
      o.run_of_rest (w.threads i).state hidle hchannel hgets
    have hstep : (machine ex policy).step { w with shared := s } (.perform i choice) =
        some (Threads.World.set { w with shared := s } i s' l' (some (k r))) := by
      simp only [Threads.System.step, hx]
      exact congrArg (Option.map _) hrun
    obtain ⟨w', result, hends, hresult⟩ := ih r (hrest.step hstep) (by rw [Threads.World.set_same])
    exact ⟨w', result, hreach.trans (.head ⟨.perform i choice, rfl, hstep⟩ hends), hresult⟩

/-- From every state of a run, a statement that has been started can come to its end without
another connection doing anything. -/
theorem statement_ends
    (hrun : Runs.Reach (machine ex policy).step (fun _ _ => True) (World.start store file) w)
    (hi : (w.threads i).task ≠ none) : ∃ (w' : World) (r : Result QueryResult),
      Runs.Reach (machine ex policy).step (Unaided i) w w' ∧ w'.result i = some r := by
  obtain ⟨x, hx⟩ := Option.ne_none_iff_exists'.mp hi
  exact (World.InTurn.of_run hrun).ends hx

/-- Connection 2 waits for the lock that the open transaction of connection 1 holds. -/
def waitingSchedule : List MachineEvent := insertTwoSchedule 1 2 ++ [.start 2 (insertInto "t" 3)]

theorem statement_ends_waiting : ∃ w : World, runSchedule keyedAndPlain waitingSchedule = some w ∧
      w.shared.owner "t" = some 1 ∧ ∃ (w' : World) (r : Result QueryResult),
        Runs.Reach (machine plainExecutor .always).step (Unaided 2) w w' ∧
          w'.result 2 = some r := by
  have hallowed : Runs.Allowed (machine plainExecutor .always).step (fun _ _ => True)
      (World.start keyedAndPlain []) waitingSchedule := by
    decide +kernel
  have hstate : ∃ w ∈ runSchedule keyedAndPlain waitingSchedule,
      (w.threads 2).task.isSome ∧ w.shared.owner "t" = some 1 := by
    decide +kernel
  obtain ⟨w, hw, htask, howner⟩ := hstate
  exact ⟨w, hw, howner, statement_ends (hallowed.reach hw) (Option.isSome_iff_ne_none.mp htask)⟩

/-- However its statements have ended, a connection that runs none has the locks of its open
transaction and no others. -/
theorem locks_at_rest
    (hrun : Runs.Reach (machine ex policy).step (fun _ _ => True) (World.start store file) w)
    (hi : (w.threads i).task = none) :
    (∀ table, w.shared.owner table = some i ↔ table ∈ (w.threads i).state.locked) ∧
      ((w.threads i).state.tx = none → (w.threads i).state.locked = []) := by
  obtain ⟨t, hfits, -, hfinal⟩ := (World.InTurn.of_run hrun).turn i
  rw [hi] at hfinal
  have howner := hfits.owner
  rw [show t.held = [] from hfinal.2, append_nil] at howner
  exact ⟨howner, fun htx => hfits.closed (by rw [htx]; rfl)⟩

theorem locks_at_rest_pending :
    ∃ w : World, runSchedule twoTables (insertSchedule "b" ++ [.finish 1]) = some w ∧
      w.shared.owner "b" = some 1 ∧ "b" ∈ (w.threads 1).state.locked := by
  have hallowed : Runs.Allowed (machine plainExecutor .always).step (fun _ _ => True)
      (World.start twoTables []) (insertSchedule "b" ++ [.finish 1]) := by
    decide +kernel
  obtain ⟨w, hw, htask, howner⟩ : ∃ w ∈ runSchedule twoTables (insertSchedule "b" ++ [.finish 1]),
      (w.threads 1).task.isNone ∧ w.shared.owner "b" = some 1 := by
    decide +kernel
  have hlocks := locks_at_rest (hallowed.reach hw) (Option.isNone_iff_eq_none.mp htask)
  exact ⟨w, hw, howner, (hlocks.1 "b").mp howner⟩

end

end MysqlRust
