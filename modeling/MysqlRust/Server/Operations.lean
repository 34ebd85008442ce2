import MysqlRust.Server.Machine
import MysqlRust.Storage.Admission

/-! # What one operation can do

Most operations leave the shared state alone up to counters. The others take or release a
lock, hand a record to the log, receive its acknowledgement or apply a call.
-/
namespace MysqlRust

open Function

inductive Conn.Reads (s : Db) (l l' : Conn) : Prop
  | same (h : l'.reads = l.reads)
  | read {table : String} (h : l'.reads = l.reads ++ [⟨s.batches.length, table, s.store⟩])

inductive Operation.Effect (i : Nat) (s : Db) (l : Conn) : Operation → Db → Conn → Prop
  | quiet {o : Operation} {store : Store} {seen : List (Nat × String)} {l' : Conn}
      (same : s.store.Same store) (others : ∀ p, p.1 ≠ i → (p ∈ seen ↔ p ∈ s.seen))
      (current : l'.current = l.current) (applied : l'.applied = l.applied)
      (answered : l'.answered = l.answered) (reads : l.Reads s l') :
      Effect i s l o { s with store, seen } l'
  | locked {table : String} {l' : Conn} (free : s.owner table = none)
      (current : l'.current = l.current) (applied : l'.applied = l.applied)
      (answered : l'.answered = l.answered) (reads : l'.reads = l.reads) :
      Effect i s l (.lock table) { s with owner := update s.owner table (some i) } l'
  | unlocked {table : String} {why : Release} : Effect i s l (.unlock table why)
        { s with
          owner := update s.owner table none
          released := s.released ++ [⟨i, table, l.answers table why, rowsFor table l.applied⟩] }
        (l.dropLock table why)
  | submitted {c : Call} (room : s.channel.length < writerQueueCapacity) : Effect i s l (.submit c)
        { s with
          phase := update s.phase i (.queued c)
          channel := s.channel ++ [⟨i, c⟩]
          sent := s.sent ++ [⟨i, c⟩] } l
  | received {result : Result Unit} {phase : Nat → Phase} (mail : s.mailbox i = some result)
      (phase_eq : phase = if result = .ok () then s.phase
        else update s.phase i .none) :
      Effect i s l .receive { s with mailbox := update s.mailbox i none, phase }
        { l with ack := some result }
  | applied {c : Call} {store : Store} (result : MysqlRust.apply s.store c = .ok store) :
      Effect i s l (.apply c)
        { s with
          store
          phase := update s.phase i .none
          unapplied := s.unapplied.filter fun r => r.conn ≠ i
          batches := s.batches ++ [c.inserts] }
        { l with applied := l.applied ++ c.inserts, statement := c.inserts }
  | refused {c : Call} (result : ∀ store, MysqlRust.apply s.store c ≠ .ok store) :
      Effect i s l (.apply c)
        { s with
          phase := update s.phase i .none
          unapplied := s.unapplied.filter fun r => r.conn ≠ i } l

section
variable {i : Nat} {choice : Choice} {s s' : Db} {l l' : Conn}
variable {o : Operation} {p : Nat × String}

theorem Db.mem_lookAway {s : Db} {i : Nat} (hp : p.1 ≠ i) :
    p ∈ (s.lookAway i).seen ↔ p ∈ s.seen := by
  simp [Db.lookAway, hp]

theorem Db.mem_look {s : Db} {i : Nat} {table : String} (hp : p.1 ≠ i) :
    p ∈ (s.look i table).seen ↔ p ∈ s.seen := by
  have hne : p ≠ (i, table) := fun heq => hp (congrArg Prod.fst heq)
  simp [Db.look, hp, hne]

theorem reserve_same (table : String) (s : Store) : s.Same (Store.reserve table s).2 :=  by
  have h := reserve_triple table s (.refl s)
  rcases hr : Store.reserve table s with ⟨_ | _ | _, s'⟩
  all_goals
    rw [hr] at h
    exact h

/-- An operation that runs has one of the effects listed for it. -/
theorem Operation.run_effect {r : Outcome Error o.Resp}
    (h : o.run i choice s l = some (r, s', l')) :
    o.Effect i s l s' l' := by
  have hquiet : ∀ {o : Operation}, o.Effect i s l s l :=
    .quiet (.refl _) (fun _ _ => .rfl) rfl rfl rfl (.same rfl)
  cases o with
  | lock table =>
    simp only [Operation.run] at h
    split at h
    · rename_i hfree
      cases h
      refine .locked hfree ?_ ?_ ?_ ?_ <;> (split <;> rfl)
    · split at h
      · cases h
        exact hquiet
      · cases h
  | unlock table why =>
    cases h
    exact .unlocked
  | tableSchema table =>
    simp only [Operation.run] at h
    split at h
    · cases h
      exact .quiet (.refl _) (fun _ => Db.mem_look) rfl rfl rfl (.same rfl)
    · cases h
      exact hquiet
    · cases h
      exact hquiet
  | nextAutoIncrement table =>
    cases h
    exact .quiet (reserve_same table s.store) (fun _ _ => .rfl) rfl rfl rfl (.same rfl)
  | scan table | scanFiltered table filter | lookupByPrimaryKey table key =>
    cases h
    exact .quiet (.refl _) (fun _ => Db.mem_lookAway) rfl rfl rfl (.read rfl)
  | check c =>
    cases h
    exact hquiet
  | submit c =>
    simp only [Operation.run] at h
    split at h
    · rename_i hroom
      cases h
      exact .submitted hroom
    · cases h
  | receive =>
    simp only [Operation.run] at h
    split at h
    · rename_i result hmail
      cases h
      split
      · rename_i hok
        exact .received hmail (if_pos hok).symm
      · rename_i hfail
        exact .received hmail (if_neg hfail).symm
    · cases h
  | apply c =>
    simp only [Operation.run] at h
    split at h
    · rename_i store hstore
      cases h
      exact .applied hstore
    · rename_i e he
      cases h
      exact .refused (by simp [he])
    · rename_i hpanic
      cases h
      exact .refused (by simp [hpanic])
  | pendingRows table =>
    cases h
    exact .quiet (.refl _) (fun _ => Db.mem_lookAway) rfl rfl rfl (.same rfl)
  | buffer schema table row =>
    simp only [Operation.run] at h
    split at h
    all_goals
      cases h
      exact .quiet (.refl _) (fun _ => Db.mem_lookAway) rfl rfl rfl (.same rfl)
  | openTransaction =>
    cases h
    exact .quiet (.refl _) (fun _ _ => .rfl) rfl rfl rfl (.same rfl)
  | takeTransaction =>
    simp only [Operation.run] at h
    split at h
    · split at h
      · cases h
        exact .quiet (.refl _) (fun _ _ => .rfl) rfl rfl rfl (.same rfl)
      · cases h
    · cases h
      exact hquiet

variable {policy : SyncPolicy}

inductive Db.Writes (policy : SyncPolicy) (s : Db) : WriterEvent → Db → Prop
  | drained {n : Nat} (idle : s.writer = .idle) (pos : 0 < n) (le : n ≤ s.channel.length) :
      Writes policy s (.drain n)
        { s with channel := s.channel.drop n, writer := .drained (s.channel.take n) }
  | written {io : Io} {batch : List Request} {framed : List UInt8} {result : Result Unit}
      (drained : s.writer = .drained batch)
      (framed_eq : framed = logBytes (batch.map fun r => r.call.entry))
      (result_eq : result = (Log.writeFramedBatch policy s.file framed io).2) :
      Writes policy s (.write io)
        { s with
          file := s.file ++ io.reached framed
          synced := if policy = .always ∧ io = .done then (s.file ++ io.reached framed).length
            else s.synced
          writer := .acking (ackOf result) batch
          phase := s.phaseAfter batch result.isOk
          written := if result.isOk then s.written ++ batch else s.written
          unapplied := if result.isOk then s.unapplied ++ batch else s.unapplied }
  | acked {result : Result Unit} {r : Request} {rest : List Request}
      (acking : s.writer = .acking result (r :: rest)) :
      Writes policy s .ack
        { s with
          mailbox := update s.mailbox r.conn (some result)
          writer := if rest = [] then .idle else .acking result rest
          acked := s.acked ++ [r] }

theorem Db.writerStep_writes {e : WriterEvent} (h : s.writerStep policy e = some s') :
    s.Writes policy e s' := by
  cases e with
  | drain n =>
    simp only [Db.writerStep] at h
    split at h
    · rename_i hidle
      split at h
      · rename_i hn
        cases h
        exact .drained hidle hn.1 hn.2
      · cases h
    · cases h
  | write io =>
    simp only [Db.writerStep] at h
    split at h
    · rename_i batch hdrained
      cases h
      exact .written hdrained rfl rfl
    · cases h
  | ack =>
    simp only [Db.writerStep] at h
    split at h
    · rename_i result r rest hacking
      cases h
      exact .acked hacking
    · cases h

end

section Appending
variable {s s' s'' : Store} {rows rows' : List (String × Row)}

structure Store.Appends (s s' : Store) (rows : List (String × Row)) : Prop where
  there : ∀ name t, s.tables.lookup name = some t → ∃ t', s'.tables.lookup name = some t' ∧
    t'.schema = t.schema ∧ t'.rows = t.rows ++ rowsFor name rows
  absent : ∀ name, s.tables.lookup name = none → s'.tables.lookup name = none

theorem Store.Appends.of_tables (h : s'.tables = s.tables) : s.Appends s' [] where
  there name t ht := ⟨t, by rw [h, ht], rfl, by simp [rowsFor]⟩
  absent name hnone := by rw [h, hnone]

theorem Store.Same.appends (h : s.Same s') : s.Appends s' [] where
  there name t ht := by
    obtain ⟨t', ht', hsame⟩ := h.lookup ht
    exact ⟨t', ht', hsame.schema.symm, by simp [rowsFor, hsame.rows]⟩
  absent name hnone := by
    cases ht' : s'.tables.lookup name with
    | none => rfl
    | some t' =>
      obtain ⟨t, ht, -⟩ := h.of_lookup ht'
      simp [hnone] at ht

theorem Store.Appends.trans (h : s.Appends s' rows) (h' : s'.Appends s'' rows') :
    s.Appends s'' (rows ++ rows') where
  there name t ht := by
    obtain ⟨t', ht', hschema, hrows⟩ := h.there name t ht
    obtain ⟨t'', ht'', hschema', hrows'⟩ := h'.there name t' ht'
    exact ⟨t'', ht'', hschema'.trans hschema, by simp [hrows', hrows]⟩
  absent name hnone := h'.absent name (h.absent name hnone)

theorem Store.Appends.of_lookup (h : s.Appends s' rows) {name : String} {t' : Table}
    (ht' : s'.tables.lookup name = some t') : ∃ t, s.tables.lookup name = some t ∧
      t'.schema = t.schema ∧ t'.rows = t.rows ++ rowsFor name rows := by
  cases ht : s.tables.lookup name with
  | none => simp [h.absent name ht] at ht'
  | some t =>
    obtain ⟨u, hu, hschema, hrows⟩ := h.there name t ht
    cases ht'.symm.trans hu
    exact ⟨t, rfl, hschema, hrows⟩

theorem pushRows_appends (h : rows.foldlM pushRow s = .ok s') : s.Appends s' rows where
  there name t ht := by
    obtain ⟨t', hpush, ht'⟩ := (pushRows_lookup h name).2 t ht
    obtain ⟨hschema, hrows⟩ := pushAll_eq_ok hpush
    exact ⟨t', ht', hschema, hrows⟩
  absent name := (pushRows_lookup h name).1

theorem apply_appends {c : Call} (hcreates : c.creates = none) (halters : c.alters = none)
    (h : apply s c = .ok s') : s.Appends s' c.inserts := by
  obtain ⟨s₁, hpush, htables⟩ := apply_pushes hcreates halters h
  have happends := pushRows_appends hpush
  constructor
  · intro name t ht
    rw [htables]
    exact happends.there name t ht
  · intro name hnone
    rw [htables]
    exact happends.absent name hnone

end Appending

end MysqlRust
