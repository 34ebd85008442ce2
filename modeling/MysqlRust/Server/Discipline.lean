import MysqlRust.Foundation.RelyGuarantee
import MysqlRust.Query.FailedInsert
import MysqlRust.Server.Operations

/-! # The discipline of locks and log

The lock of a table is held from the first check of a row against it to the application of the
row, so the rows a connection has checked stay admitted; the log answers every request once.
`ALTER TABLE` takes no lock, and what follows rests on conditions on when one is applied.
-/
namespace MysqlRust

open List Function

structure Mode where
  /-- A transaction that has buffered a row of an `INSERT` does not refuse a later one. -/
  whole : Prop
  /-- No column comes or goes between a look at a schema and the read that follows it. -/
  quiet : Prop
  /-- In a whole run every table has the schema it has here. -/
  store : Store

/-- The locks and the log alone. -/
abbrev plainMode : Mode := ⟨False, False, .empty⟩

/-- The conditions on an operation. -/
def Operation.May (m : Mode) (s : Db) (l : Conn) : Operation → Prop
  | .apply c => (∀ table, c.alters = some table → s.owner table = none) ∧
      (m.quiet → ∀ table, c.resizes = some table → ∀ p ∈ s.seen, p.2 ≠ table)
  | .tableSchema table => m.whole → ∀ t, s.store.tables.lookup table = some t →
      ∃ t₀, m.store.tables.lookup table = some t₀ ∧ t₀.schema = t.schema
  | .buffer schema table row => m.whole → l.statement ≠ [] → ∀ k key,
      schema.keyIndex = some k → row[k]? = some key →
      Transaction.View.KeyFree ⟨s.store, l.tx.getD .new⟩ table k key
  | _ => True

section Conversions
variable {store : Store} {inserts inserts' : List Insert} {rows rows' batch : List Row}

/-- The rows are those of the `INSERT`s, converted to the schemas of the store, one statement
after the other. -/
def ConvertedRows (store : Store) (inserts : List Insert) (rows : List Row) : Prop :=
  ∃ batches, List.Forall₂ (fun insert batch => Insert.Batch insert store batch) inserts batches ∧
    rows = batches.flatten

theorem ConvertedRows.nil : ConvertedRows store [] [] := ⟨[], .nil, rfl⟩

theorem ConvertedRows.single {insert : Insert} (h : insert.Batch store batch) :
    ConvertedRows store [insert] batch := ⟨[batch], .cons h .nil, (append_nil batch).symm⟩

theorem ConvertedRows.append (h : ConvertedRows store inserts rows) (h' : ConvertedRows store inserts' rows') :
    ConvertedRows store (inserts ++ inserts') (rows ++ rows') := by
  obtain ⟨batches, hbatches, rfl⟩ := h
  obtain ⟨batches', hbatches', rfl⟩ := h'
  exact ⟨batches ++ batches', rel_append hbatches hbatches', flatten_append.symm⟩

end Conversions

section Pipeline

def Writer.batch : Writer → List Request
  | .drained batch => batch
  | _ => []

def Writer.answering : Writer → List Request
  | .acking _ rest => rest
  | _ => []

def Awaits (writer : Writer) (mailbox : Nat → Option (Result Unit)) (i : Nat) : Prop :=
  mailbox i ≠ none ∨ i ∈ writer.answering.map Request.conn

inductive Phase.After : Result Unit → Phase → Prop
  | logged (c : Call) : After (.ok ()) (.logged c)
  | failed (e : Error) : After (.err e) .failed

/-- Requests that wait and requests that are being answered belong to different calls, and
the answers fit the calls. -/
structure Pipeline (waiting : List Request) (writer : Writer)
    (mailbox : Nat → Option (Result Unit)) (phase : Nat → Phase) : Prop where
  queued : ∀ r ∈ waiting, phase r.conn = .queued r.call
  apart : (waiting.map Request.conn).Nodup
  answering : ∀ result rest, writer = .acking result rest → (rest.map Request.conn).Nodup ∧
    ∀ r ∈ rest, mailbox r.conn = none ∧ Phase.After result (phase r.conn)
  mail : ∀ i result, mailbox i = some result → Phase.After result (phase i)

variable {waiting : List Request} {writer : Writer} {mailbox : Nat → Option (Result Unit)}
  {phase : Nat → Phase} {i : Nat}
variable {result : Result Unit}

theorem Phase.After.done {p : Phase} (h : Phase.After result p) :
    (∃ c, p = .logged c) ∨ p = .failed := by
  cases h with
  | logged c => exact .inl ⟨c, rfl⟩
  | failed e => exact .inr rfl

theorem Pipeline.awaits (h : Pipeline waiting writer mailbox phase) (hi : Awaits writer mailbox i) :
    (∃ c, phase i = .logged c) ∨ phase i = .failed := by
  rcases hi with hi | hi
  · obtain ⟨result, hresult⟩ := Option.ne_none_iff_exists'.mp hi
    exact (h.mail i result hresult).done
  · obtain ⟨r, hr, rfl⟩ := mem_map.mp hi
    cases writer with
    | idle => cases hr
    | drained batch => cases hr
    | acking result rest => exact ((h.answering result rest rfl).2 r hr).2.done

theorem Pipeline.ne_of_waiting (h : Pipeline waiting writer mailbox phase)
    (hi : ∀ c, phase i ≠ .queued c) {r : Request} (hr : r ∈ waiting) : r.conn ≠ i := by
  rintro rfl
  exact hi r.call (h.queued r hr)

theorem Pipeline.update (h : Pipeline waiting writer mailbox phase)
    (hi : ∀ c, phase i ≠ .queued c) (hawaits : ¬ Awaits writer mailbox i) (p : Phase) :
    Pipeline waiting writer mailbox (Function.update phase i p) where
  queued r hr := by
    rw [update_of_ne (h.ne_of_waiting hi hr)]
    exact h.queued r hr
  apart := h.apart
  answering result rest hwriter := by
    obtain ⟨hnodup, hrest⟩ := h.answering result rest hwriter
    refine ⟨hnodup, fun r hr => ⟨(hrest r hr).1, ?_⟩⟩
    have hne : r.conn ≠ i := by
      rintro rfl
      subst hwriter
      exact hawaits (.inr (mem_map_of_mem hr))
    rw [update_of_ne hne]
    exact (hrest r hr).2
  mail k result hmail := by
    have hne : k ≠ i := by
      rintro rfl
      exact hawaits (.inl (by simp [hmail]))
    rw [update_of_ne hne]
    exact h.mail k result hmail

theorem Pipeline.not_awaits (h : Pipeline waiting writer mailbox phase) (hi : phase i = .none) :
    ¬ Awaits writer mailbox i := by
  intro hawaits
  rcases h.awaits hawaits with ⟨c, hc⟩ | hc <;> cases hi.symm.trans hc

theorem Pipeline.submit (h : Pipeline waiting writer mailbox phase) (hi : phase i = .none)
    (c : Call) :
    Pipeline (waiting ++ [⟨i, c⟩]) writer mailbox (Function.update phase i (.queued c)) := by
  have hnot : ∀ c, phase i ≠ .queued c := by simp [hi]
  have hupdate := h.update hnot (h.not_awaits hi) (.queued c)
  refine { hupdate with queued := ?_, apart := ?_ }
  · exact forall_mem_append.mpr ⟨hupdate.queued, forall_mem_singleton.mpr (update_self _ _ _)⟩
  · rw [map_append, nodup_append]
    refine ⟨h.apart, by simp, ?_⟩
    rintro _ hk _ hk' rfl
    obtain ⟨r, hr, heq⟩ := mem_map.mp hk
    simp only [map_cons, map_nil, mem_singleton] at hk'
    exact h.ne_of_waiting hnot hr (heq.trans hk')

/-- A connection that has taken its answer waits for none. -/
theorem Pipeline.receive (h : Pipeline waiting writer mailbox phase)
    (hmail : mailbox i = some result) :
    Pipeline waiting writer (Function.update mailbox i none) phase ∧
      ¬ Awaits writer (Function.update mailbox i none) i := by
  have hne : ∀ r rest, writer = .acking r rest → ∀ req ∈ rest, req.conn ≠ i := by
    rintro r rest hwriter req hreq rfl
    cases hmail.symm.trans ((h.answering r rest hwriter).2 req hreq).1
  refine ⟨{ h with answering := fun r rest hwriter => ?_, mail := fun k r hk => ?_ }, ?_⟩
  · obtain ⟨hnodup, hrest⟩ := h.answering r rest hwriter
    refine ⟨hnodup, fun req hreq => ⟨?_, (hrest req hreq).2⟩⟩
    rw [update_of_ne (hne r rest hwriter req hreq)]
    exact (hrest req hreq).1
  · by_cases heq : k = i
    · subst heq
      simp at hk
    · rw [update_of_ne heq] at hk
      exact h.mail k r hk
  · rintro (hmail' | hanswer)
    · simp at hmail'
    · obtain ⟨req, hreq, rfl⟩ := mem_map.mp hanswer
      cases writer with
      | idle => cases hreq
      | drained batch => cases hreq
      | acking r rest => exact hne r rest rfl req hreq rfl

theorem Pipeline.written {batch channel : List Request} {phase' : Nat → Phase}
    (h : Pipeline (batch ++ channel) (.drained batch) mailbox phase)
    (hin : ∀ r ∈ batch, Phase.After result (phase' r.conn))
    (hout : ∀ i, i ∉ batch.map Request.conn → phase' i = phase i) :
    Pipeline channel (.acking result batch) mailbox phase' := by
  have hqueued : ∀ r ∈ batch, phase r.conn = .queued r.call := fun r hr =>
    h.queued r (mem_append_left channel hr)
  obtain ⟨hnodup, hnodup', hdisjoint⟩ := nodup_append.mp (map_append ▸ h.apart)
  have hmail : ∀ i r, mailbox i = some r → i ∉ batch.map Request.conn := by
    intro i r hi hmem
    obtain ⟨req, hreq, rfl⟩ := mem_map.mp hmem
    rcases (h.mail _ r hi).done with ⟨c, hc⟩ | hc <;> cases (hqueued req hreq).symm.trans hc
  constructor
  · intro r hr
    rw [hout r.conn fun hmem => hdisjoint _ hmem _ (mem_map_of_mem hr) rfl]
    exact h.queued r (mem_append_right batch hr)
  · exact hnodup'
  · rintro _ _ ⟨⟩
    refine ⟨hnodup, fun r hr => ⟨?_, hin r hr⟩⟩
    cases hbox : mailbox r.conn with
    | none => rfl
    | some answer => exact absurd (mem_map_of_mem hr) (hmail r.conn answer hbox)
  · intro i r hi
    rw [hout i (hmail i r hi)]
    exact h.mail i r hi

theorem Pipeline.acked {r : Request} {rest : List Request} {writer' : Writer}
    (h : Pipeline waiting (.acking result (r :: rest)) mailbox phase)
    (hwriter : writer' = if rest = [] then .idle else .acking result rest) :
    Pipeline waiting writer' (Function.update mailbox r.conn (some result)) phase := by
  obtain ⟨hnodup, hrest⟩ := h.answering result (r :: rest) rfl
  obtain ⟨hr, hnodup⟩ := nodup_cons.mp hnodup
  refine { h with answering := fun result' rest' heq => ?_, mail := fun i result' hi => ?_ }
  · rw [hwriter] at heq
    split at heq
    · cases heq
    · cases heq
      refine ⟨hnodup, fun r' hr' => ⟨?_, (hrest r' (mem_cons_of_mem r hr')).2⟩⟩
      have hne : r'.conn ≠ r.conn := fun heq => hr (heq ▸ mem_map_of_mem hr')
      rw [update_of_ne hne]
      exact (hrest r' (mem_cons_of_mem r hr')).1
  · by_cases heq : i = r.conn
    · subst heq
      rw [update_self] at hi
      cases hi
      exact (hrest r mem_cons_self).2
    · rw [update_of_ne heq] at hi
      exact h.mail i result' hi

end Pipeline

section

namespace Db

def waiting (s : Db) : List Request := s.writer.batch ++ s.channel

/-- The connection holds every table it has rows for, and the table admits them. -/
def Admits (s : Db) (i : Nat) (rows : String → List Row) : Prop :=
  ∀ table, rows table ≠ [] → s.owner table = some i ∧
    ∃ t, s.store.tables.lookup table = some t ∧ t.AdmitsRows (rows table)

end Db

structure Db.Ok (s : Db) : Prop where
  wf : s.store.Wf
  ranged : s.store.All Table.Ranged
  pipeline : Pipeline s.waiting s.writer s.mailbox s.phase
  holding : ∀ i c, s.phase i = .queued c ∨ s.phase i = .logged c →
    ∀ p ∈ c.inserts, s.owner p.1 = some i

/-- What a connection relies on while others move: its locks stay its own, the tables under
them stay as they are, its call only advances, and what it looked at keeps its width. -/
structure Db.Relies (m : Mode) (i : Nat) (s s' : Db) : Prop where
  owner : ∀ table, s'.owner table = some i ↔ s.owner table = some i
  tables : ∀ table t, s.owner table = some i → s.store.tables.lookup table = some t →
    ∃ t', s'.store.tables.lookup table = some t' ∧ t.Same t'
  phase : s'.phase i = s.phase i ∨
    ∃ c, s.phase i = .queued c ∧ (s'.phase i = .logged c ∨ s'.phase i = .failed)
  answered : (∀ c, s.phase i ≠ .queued c) → ¬ Awaits s.writer s.mailbox i →
    ¬ Awaits s'.writer s'.mailbox i
  seen : ∀ table, (i, table) ∈ s'.seen ↔ (i, table) ∈ s.seen
  width : m.quiet → ∀ table t, (i, table) ∈ s.seen → s.store.tables.lookup table = some t →
    ∃ t', s'.store.tables.lookup table = some t' ∧
      t'.schema.columns.length = t.schema.columns.length

variable {m : Mode} {i j : Nat} {s s' s'' : Db}

theorem Db.Relies.refl (m : Mode) (i : Nat) (s : Db) : Db.Relies m i s s where
  owner _ := .rfl
  tables _ t _ ht := ⟨t, ht, .refl t⟩
  phase := .inl rfl
  answered _ h := h
  seen _ := .rfl
  width _ _ t _ ht := ⟨t, ht, rfl⟩

theorem Db.Relies.trans (h : Db.Relies m i s s') (h' : Db.Relies m i s' s'') :
    Db.Relies m i s s'' where
  owner table := (h'.owner table).trans (h.owner table)
  tables table t howner ht := by
    obtain ⟨t', ht', hsame⟩ := h.tables table t howner ht
    obtain ⟨t'', ht'', hsame'⟩ := h'.tables table t' ((h.owner table).mpr howner) ht'
    exact ⟨t'', ht'', hsame.trans hsame'⟩
  phase := by
    rcases h.phase with heq | ⟨c, hqueued, hdone⟩
    · rw [← heq]
      exact h'.phase
    · rcases h'.phase with heq' | ⟨c', hqueued', -⟩
      · rw [heq']
        exact .inr ⟨c, hqueued, hdone⟩
      · rcases hdone with hdone | hdone <;> cases hdone.symm.trans hqueued'
  answered hqueued hawaits := by
    refine h'.answered (fun c hc => ?_) (h.answered hqueued hawaits)
    rcases h.phase with heq | ⟨c', hc', -⟩
    · exact hqueued c (heq ▸ hc)
    · exact hqueued c' hc'
  seen table := (h'.seen table).trans (h.seen table)
  width hquiet table t hseen ht := by
    obtain ⟨t', ht', hwidth⟩ := h.width hquiet table t hseen ht
    obtain ⟨t'', ht'', hwidth'⟩ := h'.width hquiet table t' ((h.seen table).mpr hseen) ht'
    exact ⟨t'', ht'', hwidth'.trans hwidth⟩

theorem Db.Relies.none (h : Db.Relies m i s s') (hphase : s.phase i = .none) :
    s'.phase i = .none := by
  rcases h.phase with heq | ⟨c, hc, -⟩
  · exact heq.trans hphase
  · cases hphase.symm.trans hc

theorem Db.Admits.rely {rows : String → List Row} (h : s.Admits i rows)
    (hrely : Db.Relies m i s s') : s'.Admits i rows := by
  intro table hrows
  obtain ⟨howner, t, ht, hadmits⟩ := h table hrows
  obtain ⟨t', ht', hsame⟩ := hrely.tables table t howner ht
  exact ⟨(hrely.owner table).mpr howner, t', ht', hadmits.same hsame⟩

def Conn.pending (l : Conn) (table : String) : List Row := (l.tx.getD .new).rows table

def Conn.commits (l : Conn) : Prop := l.current = some .commit ∨ l.current = some .begin

def Operation.Owes (m : Mode) (i : Nat) (s : Db) (l : Conn) : Operation → Prop
  | .lock table => rowsFor table l.applied = []
  | .unlock table why => s.owner table = some i ∧ s.phase i = .none ∧
      (m.whole → ConvertedRows m.store (l.answers table why) (rowsFor table l.applied))
  | .scan table | .scanFiltered table _ | .lookupByPrimaryKey table _ => m.quiet →
      ∃ schema, l.resolved = some (table, schema) ∧ ∀ t, s.store.tables.lookup table = some t →
        t.schema.columns.length = schema.columns.length
  | .pendingRows table => m.quiet → ∃ schema, l.resolved = some (table, schema) ∧
      ∀ row ∈ l.pending table, row.length = schema.columns.length
  | .check c => l.commits → ∃ go, MysqlRust.check s.store c = .ok go
  | .submit c => s.phase i = .none ∧ s.Admits i (rowsFor · c.inserts)
  | .apply c => s.phase i = .logged c ∧ ¬ Awaits s.writer s.mailbox i ∧ s.Admits i (rowsFor · c.inserts)
  | .buffer schema table row => l.tx.isSome ∧ row.length = schema.columns.length ∧
      ∃ t, s.store.tables.lookup table = some t ∧ t.schema = schema ∧ t.AdmitsRows (l.pending table)
  | _ => True

variable {l l' : Conn} {o : Operation}

theorem Db.Admits.accepts {rows : List (String × Row)} (h : s.Admits i (rowsFor · rows))
    {p : String × Row} (hp : p ∈ rows) : s.owner p.1 = some i ∧ s.store.Accepts p := by
  have hmem := mem_rowsFor hp
  obtain ⟨howner, t, ht, hadmits⟩ := h p.1 (ne_nil_of_mem hmem)
  exact ⟨howner, t, ht, hadmits.width p.2 hmem⟩

theorem Db.Ok.settle (hs : s.Ok) {store : Store} (hwf : store.Wf) (hranged : store.All Table.Ranged)
    {c : Call} (hphase : s.phase i = .logged c) (hawaits : ¬ Awaits s.writer s.mailbox i)
    {unapplied : List Request} {batches : List (List (String × Row))} :
    Db.Ok { s with store, phase := Function.update s.phase i .none, unapplied, batches } where
  wf := hwf
  ranged := hranged
  pipeline := hs.pipeline.update (by simp [hphase]) hawaits .none
  holding k c' hc' := by
    by_cases heq : k = i
    · subst heq
      simp at hc'
    · simp only [update_of_ne heq] at hc'
      exact hs.holding k c' hc'

/-- An operation that meets what it owes keeps what holds between steps. -/
theorem Operation.Effect.ok (heffect : o.Effect i s l s' l') (hs : s.Ok) (howes : o.Owes m i s l) :
    s'.Ok := by
  cases heffect with
  | quiet same others =>
    exact { hs with
      wf := hs.wf.same (fun _ _ => Table.Wf.same) same
      ranged := hs.ranged.same (fun _ _ => Table.Ranged.same) same }
  | @locked table _ free =>
    refine { hs with holding := fun k c hc p hp => ?_ }
    have howner := hs.holding k c hc p hp
    have hne : p.1 ≠ table := fun heq => by
      rw [heq, free] at howner
      cases howner
    exact (update_of_ne hne _ _).trans howner
  | @unlocked table why =>
    obtain ⟨hmine, hphase, -⟩ := howes
    refine { hs with holding := fun k c hc p hp => ?_ }
    have howner := hs.holding k c hc p hp
    have hne : p.1 ≠ table := fun heq => by
      rw [heq, hmine] at howner
      cases howner
      rw [show s.phase i = .none from hphase] at hc
      rcases hc with hc | hc <;> cases hc
    exact (update_of_ne hne _ _).trans howner
  | @submitted c room =>
    obtain ⟨hphase, hadmits⟩ := howes
    have hpipeline := hs.pipeline.submit hphase c
    rw [Db.waiting, append_assoc] at hpipeline
    refine { hs with pipeline := hpipeline, holding := fun k c' hc' p hp => ?_ }
    by_cases heq : k = i
    · subst heq
      simp only [update_self, Phase.queued.injEq, reduceCtorEq, or_false] at hc'
      subst hc'
      exact (hadmits.accepts hp).1
    · simp only [update_of_ne heq] at hc'
      exact hs.holding k c' hc' p hp
  | @received result phase mail phase_eq =>
    obtain ⟨hpipeline, hawaits⟩ := hs.pipeline.receive mail
    have hdone := (hs.pipeline.mail i result mail).done
    by_cases hok : result = .ok ()
    · rw [if_pos hok] at phase_eq
      subst phase_eq
      exact { hs with pipeline := hpipeline }
    · rw [if_neg hok] at phase_eq
      subst phase_eq
      refine { hs with pipeline := hpipeline.update ?_ hawaits .none, holding := fun k c hc => ?_ }
      · rcases hdone with ⟨c, hc⟩ | hc <;> simp [hc]
      · by_cases heq : k = i
        · subst heq
          simp at hc
        · simp only [update_of_ne heq] at hc
          exact hs.holding k c hc
  | @applied c store result =>
    obtain ⟨hphase, hawaits, hadmits⟩ := howes
    have hpost := apply_post (c := c) hs.wf fun p hp => (hadmits.accepts hp).2
    rw [result] at hpost
    exact hs.settle hpost (apply_ranged hs.ranged result) hphase hawaits
  | refused result =>
    obtain ⟨hphase, hawaits, -⟩ := howes
    exact hs.settle hs.wf hs.ranged hphase hawaits

theorem Db.Relies.of_same (hsame : s.store.Same s'.store)
    (howner : ∀ table, s'.owner table = some j ↔ s.owner table = some j)
    (hphase : s'.phase j = s.phase j)
    (hawaits : Awaits s'.writer s'.mailbox j → Awaits s.writer s.mailbox j)
    (hseen : ∀ table, (j, table) ∈ s'.seen ↔ (j, table) ∈ s.seen) : Db.Relies m j s s' where
  owner := howner
  tables table t _ ht := hsame.lookup ht
  phase := .inl hphase
  answered _ h h' := h (hawaits h')
  seen := hseen
  width _ table t _ ht := by
    obtain ⟨t', ht', hsame⟩ := hsame.lookup ht
    exact ⟨t', ht', by rw [hsame.schema]⟩

/-- An operation leaves the locks of the other connections alone. -/
theorem Operation.Effect.owner (h : o.Effect i s l s' l') (hj : j ≠ i)
    (hmine : ∀ table why, o = .unlock table why → s.owner table = some i) (other : String) :
    s'.owner other = some j ↔ s.owner other = some j := by
  cases h with
  | @locked table _ free =>
    by_cases heq : other = table
    · simp [heq, free, hj.symm]
    · simp [heq]
  | @unlocked table why =>
    by_cases heq : other = table
    · simp [heq, hmine table why rfl, hj.symm]
    · simp [heq]
  | _ => rfl

/-- An operation keeps what the other connections rely on. -/
theorem Operation.Effect.relies (heffect : o.Effect i s l s' l') (howes : o.Owes m i s l)
    (hmay : o.May m s l) (hj : j ≠ i) : Db.Relies m j s s' := by
  have howner := heffect.owner hj fun table why ho => by
    subst ho
    exact howes.1
  cases heffect with
  | quiet same others => exact .of_same same howner rfl id fun table => others (j, table) hj
  | locked => exact .of_same (.refl _) howner rfl id fun _ => .rfl
  | unlocked => exact .of_same (.refl _) howner rfl id fun _ => .rfl
  | submitted room =>
    exact .of_same (.refl _) (fun _ => .rfl) (update_of_ne hj _ _) id fun _ => .rfl
  | @received result phase mail phase_eq =>
    refine .of_same (.refl _) (fun _ => .rfl) ?_ ?_ fun _ => .rfl
    · rw [phase_eq]
      split
      · rfl
      · exact update_of_ne hj _ _
    · simp only [Awaits, update_of_ne hj]
      exact id
  | @applied c store result =>
    obtain ⟨halters, hresizes⟩ := hmay
    refine ⟨fun _ => .rfl, fun table t hmine ht => ?_, .inl (update_of_ne hj _ _),
      fun _ h => h, fun _ => .rfl, fun hquiet table t hseen ht => ?_⟩
    · have hrows : rowsFor table c.inserts = [] := by
        by_contra hne
        have htheirs := (howes.2.2 table hne).1
        rw [hmine] at htheirs
        exact hj (Option.some.inj htheirs)
      have hother : c.alters ≠ some table := by
        intro heq
        cases hmine.symm.trans (halters table heq)
      exact ⟨t, apply_lookup ht hrows hother result, .refl t⟩
    · exact apply_width ht (fun heq => hresizes hquiet table heq (j, table) hseen rfl) result
  | refused result =>
    exact .of_same (.refl _) (fun _ => .rfl) (update_of_ne hj _ _) id fun _ => .rfl

end

section Writing
variable {m : Mode} {policy : SyncPolicy} {i : Nat} {s s' : Db} {batch : List Request}
  {succeeded : Bool}

theorem Db.phaseAfter_of_mem (s : Db) (hnodup : (batch.map Request.conn).Nodup) {r : Request}
    (hr : r ∈ batch) :
    s.phaseAfter batch succeeded r.conn = if succeeded then .logged r.call else .failed := by
  rw [Db.phaseAfter, Lists.find?_of_nodup hnodup hr]

theorem Db.phaseAfter_of_notMem (s : Db) (hi : i ∉ batch.map Request.conn) :
    s.phaseAfter batch succeeded i = s.phase i := by
  have hnone : batch.find? (fun r => r.conn = i) = none := by
    rw [List.find?_eq_none]
    intro r hr heq
    exact hi (of_decide_eq_true heq ▸ mem_map_of_mem hr)
  rw [Db.phaseAfter, hnone]

/-- The writer keeps what holds between steps and what the connections rely on. -/
theorem Db.Writes.keeps {e : WriterEvent} (h : s.Writes policy e s') (hs : s.Ok) :
    s'.Ok ∧ ∀ j, Db.Relies m j s s' := by
  cases h with
  | @drained n idle =>
    have hwaiting : s.channel.take n ++ s.channel.drop n = s.waiting := by
      simp [Db.waiting, idle, Writer.batch]
    constructor
    · refine { hs with pipeline := ?_ }
      have hpipeline := hs.pipeline
      rw [← hwaiting] at hpipeline
      exact { hpipeline with answering := nofun }
    · intro j
      refine .of_same (.refl _) (fun _ => .rfl) rfl (fun hawaits => ?_) fun _ => .rfl
      exact hawaits.imp_right nofun
  | @written io batch framed result drained _ result_eq =>
    have hpipeline : Pipeline (batch ++ s.channel) (.drained batch) s.mailbox s.phase := by
      have h := hs.pipeline
      rwa [Db.waiting, drained] at h
    obtain ⟨hnodup, -, -⟩ := nodup_append.mp (map_append ▸ hpipeline.apart)
    have hqueued : ∀ r ∈ batch, s.phase r.conn = .queued r.call := fun r hr =>
      hpipeline.queued r (mem_append_left s.channel hr)
    have hafter : ∀ r ∈ batch, Phase.After (ackOf result) (s.phaseAfter batch result.isOk r.conn) := by
      intro r hr
      rw [Db.phaseAfter_of_mem s hnodup hr]
      cases hresult : result with
      | ok u => exact .logged r.call
      | err e => exact .failed _
      | panic => exact absurd (result_eq.symm.trans hresult) (writeFramedBatch_ne_panic _ _ _ _)
    have hadvance : ∀ k, s.phaseAfter batch result.isOk k = s.phase k ∨
        ∃ c, s.phase k = .queued c ∧ (s.phaseAfter batch result.isOk k = .logged c ∨
          s.phaseAfter batch result.isOk k = .failed) := by
      intro k
      by_cases hmem : k ∈ batch.map Request.conn
      · obtain ⟨r, hr, rfl⟩ := mem_map.mp hmem
        refine .inr ⟨r.call, hqueued r hr, ?_⟩
        rw [Db.phaseAfter_of_mem s hnodup hr]
        cases result.isOk
        · exact .inr rfl
        · exact .inl rfl
      · exact .inl (s.phaseAfter_of_notMem hmem)
    have hbefore : ∀ k c, s.phaseAfter batch result.isOk k = .queued c ∨
        s.phaseAfter batch result.isOk k = .logged c → s.phase k = .queued c ∨ s.phase k = .logged c := by
      intro k c hc
      rcases hadvance k with heq | ⟨c', hc', hlogged | hfailed⟩
      · rwa [heq] at hc
      · rw [hlogged] at hc
        rcases hc with hc | hc
        · cases hc
        · exact .inl (Phase.logged.inj hc ▸ hc')
      · rw [hfailed] at hc
        rcases hc with hc | hc <;> cases hc
    constructor
    · exact { hs with
        pipeline := hpipeline.written hafter fun i hi => s.phaseAfter_of_notMem hi
        holding := fun k c hc => hs.holding k c (hbefore k c hc) }
    · intro j
      refine ⟨fun _ => .rfl, fun _ t _ ht => ⟨t, ht, .refl t⟩, hadvance j, fun hnot hawaits => ?_,
        fun _ => .rfl, fun _ _ t _ ht => ⟨t, ht, rfl⟩⟩
      rintro (hmail | hmem)
      · exact hawaits (.inl hmail)
      · obtain ⟨r, hr, rfl⟩ := mem_map.mp hmem
        exact hnot r.call (hqueued r hr)
  | @acked result r rest acking =>
    have hpipeline : Pipeline s.channel (.acking result (r :: rest)) s.mailbox s.phase := by
      have h := hs.pipeline
      rwa [Db.waiting, acking] at h
    have hbatch : (if rest = [] then Writer.idle else .acking result rest).batch = [] := by
      split <;> rfl
    constructor
    · refine { hs with pipeline := ?_ }
      rw [Db.waiting, hbatch]
      exact hpipeline.acked rfl
    · intro j
      refine .of_same (.refl _) (fun _ => .rfl) rfl (fun hawaits => ?_) fun _ => .rfl
      rw [acking]
      rcases hawaits with hmail | hmem
      · by_cases heq : j = r.conn
        · exact .inr (heq ▸ mem_cons_self)
        · exact .inl (by simpa [update_of_ne heq] using hmail)
      · refine .inr ?_
        dsimp only at hmem
        split at hmem
        · cases hmem
        · exact mem_cons_of_mem _ hmem

end Writing

end MysqlRust
