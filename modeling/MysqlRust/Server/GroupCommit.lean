import MysqlRust.Server.Serializability
import MysqlRust.Storage.AlterRace

/-! # Write-ahead logging under group commit

The writer writes records in batches and answers them; each connection then applies its own call.
The log and the tables agree table by table, because a connection keeps the locks of its tables
from the check to the application.
-/
namespace MysqlRust

open List Function Outcome Option

def Operation.call : Operation → Option Call
  | .submit c | .apply c => some c
  | _ => none

def Call.isBatch : Call → Bool
  | .insertRows _ => true
  | _ => false

/-- Only rows are logged and applied, and the writes and syncs of the log succeed. -/
def InsertsLogged (w : World) : MachineEvent → Prop
  | .perform i _ => ∀ c ∈ (w.next i).bind Operation.call, c.isBatch = true
  | .outside (.write io) => io = .done
  | _ => True

def RecordsFit (w : World) : MachineEvent → Prop
  | .perform i _ => ∀ c ∈ (w.next i).bind Operation.call, c.entry.encode.length < 2 ^ 32
  | _ => True

instance (w : World) (e : MachineEvent) : Decidable (InsertsLogged w e) := by
  unfold InsertsLogged
  rcases e with _ | _ | _ | ⟨⟨⟩⟩ <;> infer_instance

instance (w : World) (e : MachineEvent) : Decidable (RecordsFit w e) := by
  unfold RecordsFit
  rcases e with ⟨⟩ <;> infer_instance

def inserted (rs : List Request) : List (String × Row) := rs.flatMap fun r => r.call.inserts

theorem inserted_append (rs rs' : List Request) :
    inserted (rs ++ rs') = inserted rs ++ inserted rs' := flatMap_append

theorem rowsFor_inserted (table : String) (rs : List Request) :
    rowsFor table (inserted rs) = rs.flatMap fun r => rowsFor table r.call.inserts := by
  induction rs with
  | nil => rfl
  | cons r rs ih =>
    rw [flatMap_cons, ← ih, ← rowsFor_append]
    rfl

/-- What may be handed to the log: rows for tables that are there, in a record that fits. -/
structure Request.Sound (store : Store) (r : Request) : Prop where
  batch : r.call.isBatch = true
  fits : r.call.entry.encode.length < 2 ^ 32
  accepted : ∀ p ∈ r.call.inserts, store.Accepts p

theorem Store.Appends.accepts {s s' : Store} {rows : List (String × Row)} (h : s.Appends s' rows)
    {p : String × Row} : s'.Accepts p ↔ s.Accepts p := by
  constructor
  · rintro ⟨t', ht', hlen⟩
    obtain ⟨t, ht, hschema, -⟩ := h.of_lookup ht'
    exact ⟨t, ht, hschema ▸ hlen⟩
  · rintro ⟨t, ht, hlen⟩
    obtain ⟨t', ht', hschema, -⟩ := h.there p.1 t ht
    exact ⟨t', ht', hschema ▸ hlen⟩

theorem replay_requests {store : Store} (hwf : store.Wf) {rs : List Request}
    (hrs : ∀ r ∈ rs, r.Sound store) :
    ∃ s', (rs.map fun r => r.call.entry).foldlM applyEntry store = .ok s' ∧
      store.Appends s' (inserted rs) := by
  induction rs generalizing store with
  | nil => exact ⟨store, rfl, .of_tables rfl⟩
  | cons r rs ih =>
    obtain ⟨hbatch, -, haccepted⟩ := hrs r mem_cons_self
    obtain ⟨rows, hrows⟩ : ∃ rows, r.call = .insertRows rows := by
      cases hcall : r.call with
      | insertRows rows => exact ⟨rows, rfl⟩
      | _ => simp [hcall, Call.isBatch] at hbatch
    rw [hrows] at haccepted
    obtain ⟨s₁, hpush, hwf₁⟩ := pushRows_wf hwf fun p hp => (haccepted p hp).fits
    have happends : store.Appends s₁ rows := pushRows_appends hpush
    obtain ⟨s', hrest, happends'⟩ := ih hwf₁ fun r' hr' => by
      obtain ⟨hbatch', hfits', haccepted'⟩ := hrs r' (mem_cons_of_mem r hr')
      exact ⟨hbatch', hfits', fun p hp => happends.accepts.mpr (haccepted' p hp)⟩
    have hentry : applyEntry store r.call.entry = .ok s₁ := by
      rw [hrows]
      exact hpush
    have hinserted : inserted (r :: rs) = rows ++ inserted rs := by
      rw [inserted, flatMap_cons, hrows]
      rfl
    refine ⟨s', ?_, hinserted ▸ happends.trans happends'⟩
    rw [map_cons, foldlM_cons, hentry, ok_bind, hrest]

section Invariant

def Writer.Busy : Writer → Prop
  | .idle => True
  | .drained batch => batch ≠ []
  | .acking result rest => result = .ok () ∧ rest ≠ []

structure Db.Logged (policy : SyncPolicy) (log : List Entry) (store : Store) (s : Db) : Prop where
  file : Holds s.file (log ++ s.written.map fun r => r.call.entry)
  synced : policy = .always → s.synced = s.file.length
  busy : s.writer.Busy
  sent : s.sent = s.written ++ s.waiting
  answered : s.written = s.acked ++ s.writer.answering
  sound : ∀ r ∈ s.sent, r.Sound store
  unapplied : ∀ r, r ∈ s.unapplied ↔ s.phase r.conn = .logged r.call
  once : (s.unapplied.map Request.conn).Nodup
  rows : ∀ table, rowsFor table (inserted s.written) =
    rowsFor table s.batches.flatten ++ rowsFor table (inserted s.unapplied)
  answering : ∀ r ∈ s.writer.answering, s.phase r.conn = .logged r.call
  mail : ∀ i result, s.mailbox i = some result →
    result = .ok () ∧ ∃ r ∈ s.acked, r.conn = i ∧ s.phase i = .logged r.call

variable {policy : SyncPolicy} {log : List Entry} {store : Store} {m : Mode} {o : Operation}
  {i : Nat} {s s' : Db} {l l' : Conn}
variable {batch channel : List Request} {file : List UInt8} {p : Phase}

theorem Db.Logged.start (h : Holds file log) : (Db.start store file).Logged policy log store where
  file := by simpa [Db.start] using h
  synced _ := rfl
  busy := trivial
  sent := rfl
  answered := rfl
  sound := nofun
  unapplied r := by simp [Db.start]
  once := .nil
  rows _ := rfl
  answering := nofun
  mail := nofun

/-- The call that a connection applies is the one of its own that is left, and no other
connection has rows for its tables. -/
theorem Db.Logged.apply_rows (h : s.Logged policy log store) (hok : s.Ok) {c : Call}
    (hphase : s.phase i = .logged c) (hadmits : s.Admits i (rowsFor · c.inserts)) (table : String) :
    rowsFor table (inserted s.unapplied) = rowsFor table c.inserts ++
      rowsFor table (inserted (s.unapplied.filter fun r => r.conn ≠ i)) := by
  have hmine : (⟨i, c⟩ : Request) ∈ s.unapplied := (h.unapplied ⟨i, c⟩).mpr hphase
  have hother : ∀ r ∈ s.unapplied, rowsFor table r.call.inserts ≠ [] →
      s.owner table = some r.conn := by
    intro r hr hne
    obtain ⟨row, hrow⟩ := exists_mem_of_ne_nil _ hne
    obtain ⟨p, hp, rfl⟩ := mem_map.mp hrow
    obtain ⟨hmem, hname⟩ := mem_filter.mp hp
    have howner := hok.holding r.conn r.call (.inr ((h.unapplied r).mp hr)) p hmem
    rwa [of_decide_eq_true hname] at howner
  rw [rowsFor_inserted, rowsFor_inserted]
  by_cases hnone : rowsFor table c.inserts = []
  · rw [hnone, nil_append]
    refine (Lists.flatMap_filter fun r hr hconn => ?_).symm
    have hconn : r.conn = i := not_not.mp hconn
    have hlogged := (h.unapplied r).mp hr
    rw [hconn, hphase] at hlogged
    rw [← Phase.logged.inj hlogged]
    exact hnone
  · have howner := (hadmits table hnone).1
    have hempty : ∀ r ∈ s.unapplied, r.conn ≠ i → rowsFor table r.call.inserts = [] := by
      intro r hr hconn
      by_contra hne
      exact hconn (some.inj ((hother r hr hne).symm.trans howner))
    rw [Lists.flatMap_of_nodup h.once hmine hempty]
    have hrest : ((s.unapplied.filter fun r => r.conn ≠ i).flatMap fun r =>
        rowsFor table r.call.inserts) = [] := by
      refine flatMap_eq_nil_iff.mpr fun r hr => ?_
      obtain ⟨hmem, hconn⟩ := mem_filter.mp hr
      exact hempty r hmem (of_decide_eq_true hconn)
    rw [hrest, append_nil]

theorem Db.Logged.unapplied_update (h : s.Logged policy log store)
    (hbefore : ∀ c, s.phase i ≠ .logged c) (hafter : ∀ c, p ≠ .logged c) (r : Request) :
    r ∈ s.unapplied ↔ update s.phase i p r.conn = .logged r.call := by
  rw [h.unapplied]
  by_cases heq : r.conn = i
  · rw [heq, update_self]
    exact iff_of_false (hbefore _) (hafter _)
  · rw [update_of_ne heq]

theorem Db.Logged.answering_update (h : s.Logged policy log store)
    (hi : i ∉ s.writer.answering.map Request.conn) :
    ∀ r ∈ s.writer.answering, update s.phase i p r.conn = .logged r.call := by
  intro r hr
  rw [update_of_ne fun heq => hi (mem_map.mpr ⟨r, hr, heq⟩)]
  exact h.answering r hr

theorem Db.Logged.mail_update (h : s.Logged policy log store) (hi : s.mailbox i = none) :
    ∀ j result, s.mailbox j = some result → result = .ok () ∧ ∃ r ∈ s.acked, r.conn = j ∧
      update s.phase i p j = .logged r.call := by
  intro j result hmail
  rw [update_of_ne]
  · exact h.mail j result hmail
  · rintro rfl
    cases hi.symm.trans hmail

/-- An operation keeps file, requests and answers in step. -/
theorem Operation.Effect.logged (heffect : o.Effect i s l s' l') (hok : s.Ok)
    (howes : o.Owes m i s l) (hbatch : ∀ c ∈ o.call, c.isBatch = true)
    (hfits : ∀ c ∈ o.call, c.entry.encode.length < 2 ^ 32)
    (htables : store.Appends s.store s.batches.flatten) (h : s.Logged policy log store) :
    s'.Logged policy log store := by
  cases heffect with
  | quiet | locked | unlocked =>
    exact ⟨h.file, h.synced, h.busy, h.sent, h.answered, h.sound, h.unapplied, h.once, h.rows,
      h.answering, h.mail⟩
  | @submitted c room =>
    obtain ⟨hphase, hadmits⟩ := howes
    have hawaits := not_or.mp (hok.pipeline.not_awaits hphase)
    refine ⟨h.file, h.synced, h.busy, ?_, h.answered, ?_, ?_, h.once, h.rows,
      h.answering_update hawaits.2, h.mail_update (not_not.mp hawaits.1)⟩
    · show s.sent ++ [_] = s.written ++ (s.writer.batch ++ (s.channel ++ [_]))
      rw [h.sent, Db.waiting, append_assoc, append_assoc]
    · refine forall_mem_append.mpr ⟨h.sound, forall_mem_singleton.mpr ⟨hbatch c rfl, hfits c rfl, ?_⟩⟩
      exact fun p hp => htables.accepts.mp (hadmits.accepts hp).2
    · exact h.unapplied_update (by simp [hphase]) (by simp)
  | @received result phase mail phase_eq =>
    rw [if_pos (h.mail i result mail).1] at phase_eq
    subst phase_eq
    refine ⟨h.file, h.synced, h.busy, h.sent, h.answered, h.sound, h.unapplied, h.once, h.rows,
      h.answering, fun j result' hmail => ?_⟩
    have hmail : update s.mailbox i none j = some result' := hmail
    by_cases heq : j = i
    · rw [heq, update_self] at hmail
      cases hmail
    · rw [update_of_ne heq] at hmail
      exact h.mail j result' hmail
  | @applied c store' result =>
    obtain ⟨hphase, hawaits, hadmits⟩ := howes
    have hawaits := not_or.mp hawaits
    refine ⟨h.file, h.synced, h.busy, h.sent, h.answered, h.sound, fun r => ?_, ?_, fun table => ?_,
      h.answering_update hawaits.2, h.mail_update (not_not.mp hawaits.1)⟩
    · rw [mem_filter, h.unapplied]
      by_cases heq : r.conn = i
      · simp [heq]
      · simp [heq]
    · exact h.once.sublist (filter_sublist.map _)
    · rw [h.rows, h.apply_rows hok hphase hadmits, flatten_append, rowsFor_append,
        flatten_singleton, append_assoc]
  | @refused c result =>
    obtain ⟨hphase, -, hadmits⟩ := howes
    -- rows that their tables admit are always applied
    have hrows : ∃ rows, c = .insertRows rows := by
      have hc := hbatch c rfl
      cases c with
      | insertRows rows => exact ⟨rows, rfl⟩
      | _ => cases hc
    obtain ⟨rows, rfl⟩ := hrows
    obtain ⟨store', hpush, -⟩ := pushRows_wf hok.wf fun p hp => (hadmits.accepts hp).2.fits
    exact absurd hpush (result store')

theorem Db.Logged.unapplied_written (h : s.Logged policy log store)
    (hpipeline : Pipeline (batch ++ channel) (.drained batch) s.mailbox s.phase) (r : Request) :
    r ∈ s.unapplied ++ batch ↔ s.phaseAfter batch true r.conn = .logged r.call := by
  obtain ⟨hnodup, -, -⟩ := nodup_append.mp (map_append ▸ hpipeline.apart)
  rw [mem_append, h.unapplied]
  by_cases hmem : r.conn ∈ batch.map Request.conn
  · obtain ⟨r', hr', hconn⟩ := mem_map.mp hmem
    have hqueued : s.phase r.conn = .queued r'.call := by
      rw [← hconn]
      exact hpipeline.queued r' (mem_append_left channel hr')
    have hafter : s.phaseAfter batch true r.conn = .logged r'.call := by
      rw [← hconn]
      exact s.phaseAfter_of_mem hnodup hr'
    rw [hqueued, hafter, Phase.logged.injEq]
    constructor
    · rintro (hphase | hr)
      · cases hphase
      · rw [inj_on_of_nodup_map hnodup hr hr' hconn.symm]
    · intro hcall
      have heq : r' = r := by
        cases r
        cases r'
        cases hconn
        cases hcall
        rfl
      exact .inr (heq ▸ hr')
  · rw [s.phaseAfter_of_notMem hmem]
    exact or_iff_left fun hr => hmem (mem_map_of_mem hr)

theorem Db.Logged.once_written (h : s.Logged policy log store)
    (hpipeline : Pipeline (batch ++ channel) (.drained batch) s.mailbox s.phase) :
    ((s.unapplied ++ batch).map Request.conn).Nodup := by
  obtain ⟨hnodup, -, -⟩ := nodup_append.mp (map_append ▸ hpipeline.apart)
  rw [map_append]
  refine nodup_append.mpr ⟨h.once, hnodup, ?_⟩
  intro i hi j hj heq
  obtain ⟨r, hr, rfl⟩ := mem_map.mp hi
  obtain ⟨r', hr', rfl⟩ := mem_map.mp hj
  have hqueued := hpipeline.queued r' (mem_append_left channel hr')
  rw [← heq, (h.unapplied r).mp hr] at hqueued
  cases hqueued

theorem Holds.append_logBytes {es : List Entry} (h : Holds file log) (hes : Framable es) :
    Holds (file ++ logBytes es) (log ++ es) := by
  obtain ⟨ps, hv, rfl⟩ := h
  exact ⟨ps ++ es.map Entry.encode, hv.append hes.verified, by rw [frames_append]; rfl⟩

theorem Db.Logged.framable (h : s.Logged policy log store) (hbatch : batch ⊆ s.sent) :
    Framable (batch.map fun r => r.call.entry) := by
  intro e he
  obtain ⟨r, hr, rfl⟩ := mem_map.mp he
  exact (h.sound r (hbatch hr)).fits

/-- The writer keeps file, requests and answers in step. -/
theorem Db.Writes.logged {e : WriterEvent} (hwrites : s.Writes policy e s') (hok : s.Ok)
    (hdone : ∀ io, e = .write io → io = .done) (h : s.Logged policy log store) :
    s'.Logged policy log store := by
  have hbusy := h.busy
  have hsent := h.sent
  have hanswered := h.answered
  cases hwrites with
  | @drained n idle hpos hle =>
    rw [Db.waiting, idle] at hsent
    rw [idle] at hanswered
    refine { h with
      busy := ?_, sent := hsent.trans ?_, answered := hanswered
      answering := fun _ hr => absurd hr not_mem_nil }
    · refine ne_nil_of_length_pos ?_
      rwa [length_take_of_le hle]
    · exact congrArg (s.written ++ ·) (take_append_drop n s.channel).symm
  | @written io batch framed result drained framed_eq result_eq =>
    cases hdone io rfl
    subst framed_eq
    subst result_eq
    rw [Db.waiting, drained] at hsent
    rw [drained] at hanswered hbusy
    have hacked : s.written = s.acked := hanswered.trans (append_nil s.acked)
    have hpipeline : Pipeline (batch ++ s.channel) (.drained batch) s.mailbox s.phase := by
      have hpipeline := hok.pipeline
      rwa [Db.waiting, drained] at hpipeline
    have hbatch : batch ⊆ s.sent := by
      rw [hsent]
      intro r hr
      exact mem_append_right s.written (mem_append_left s.channel hr)
    obtain ⟨hnodup, -, -⟩ := nodup_append.mp (map_append ▸ hpipeline.apart)
    refine ⟨?_, fun halways => if_pos ⟨halways, rfl⟩, ⟨rfl, hbusy⟩, ?_, ?_, h.sound,
      h.unapplied_written hpipeline, h.once_written hpipeline, fun table => ?_,
      fun r hr => s.phaseAfter_of_mem hnodup hr, fun i result hmail => ?_⟩
    · show Holds (s.file ++ _) (log ++ (s.written ++ batch).map fun r => r.call.entry)
      rw [map_append, ← append_assoc]
      exact h.file.append_logBytes (h.framable hbatch)
    · exact hsent.trans (append_assoc _ _ _).symm
    · exact congrArg (· ++ batch) hacked
    · show rowsFor table (inserted (s.written ++ batch)) =
        rowsFor table s.batches.flatten ++ rowsFor table (inserted (s.unapplied ++ batch))
      rw [inserted_append, inserted_append, rowsFor_append, rowsFor_append, h.rows, append_assoc]
    · obtain ⟨hok, r, hr, rfl, hphase⟩ := h.mail i result hmail
      refine ⟨hok, r, hr, rfl, (s.phaseAfter_of_notMem fun hmem => ?_).trans hphase⟩
      obtain ⟨r', hr', heq⟩ := mem_map.mp hmem
      have hqueued := hpipeline.queued r' (mem_append_left s.channel hr')
      rw [heq, hphase] at hqueued
      cases hqueued
  | @acked result r rest acking =>
    rw [Db.waiting, acking] at hsent
    rw [acking] at hanswered hbusy
    have hanswering := h.answering
    rw [acking] at hanswering
    have hmail : ∀ i res, update s.mailbox r.conn (some result) i = some res →
        res = .ok () ∧ ∃ r' ∈ s.acked ++ [r], r'.conn = i ∧ s.phase i = .logged r'.call := by
      intro i res hmail
      by_cases heq : i = r.conn
      · subst heq
        rw [update_self] at hmail
        cases hmail
        exact ⟨hbusy.1, r, mem_concat_self, rfl, hanswering r mem_cons_self⟩
      · rw [update_of_ne heq] at hmail
        obtain ⟨hres, r', hr', hphase⟩ := h.mail i res hmail
        exact ⟨hres, r', mem_append_left _ hr', hphase⟩
    by_cases hrest : rest = []
    · rw [if_pos hrest]
      refine { h with
        busy := trivial, sent := hsent, answered := hanswered.trans ?_
        answering := fun _ hr => absurd hr not_mem_nil, mail := hmail }
      rw [hrest]
      exact (append_nil _).symm
    · rw [if_neg hrest]
      refine { h with
        busy := ⟨hbusy.1, hrest⟩, sent := hsent, answered := hanswered.trans ?_
        answering := fun r' hr' => hanswering r' (mem_cons_of_mem _ hr'), mail := hmail }
      exact append_cons s.acked r rest

end Invariant

section Answers
variable (policy : SyncPolicy)
variable {s : Db}

def Db.answerAll (n : Nat) : List WriterEvent := replicate n .ack

def Writer.remaining : Writer → List WriterEvent
  | .idle => []
  | .drained batch => .write .done :: Db.answerAll batch.length
  | .acking _ rest => Db.answerAll rest.length

def Db.remaining (s : Db) : List WriterEvent :=
  s.writer.remaining ++ if s.channel = [] then []
    else .drain s.channel.length :: .write .done :: Db.answerAll s.channel.length

def Db.Answers (s : Db) (es : List WriterEvent) (rs : List Request) : Prop :=
  ∃ s', es.foldlM (Db.writerStep policy) s = some s' ∧ s'.writer = .idle ∧
    s'.acked = s.acked ++ rs ∧ s'.channel = s.channel

theorem Db.answers_acking {result : Result Unit} {rest : List Request} (hrest : rest ≠ [])
    (h : s.writer = .acking result rest) : s.Answers policy (Db.answerAll rest.length) rest := by
  induction rest generalizing s with
  | nil => exact absurd rfl hrest
  | cons r rest ih =>
    have hstep : s.writerStep policy .ack = some { s with
        mailbox := update s.mailbox r.conn (some result)
        writer := if rest = [] then .idle else .acking result rest
        acked := s.acked ++ [r] } := by
      rw [Db.writerStep, h]
    by_cases hnil : rest = []
    · subst hnil
      exact ⟨_, (congrArg (· >>= _) hstep).trans rfl, rfl, rfl, rfl⟩
    · rw [if_neg hnil] at hstep
      obtain ⟨s', hrun, hidle, hacked, hchannel⟩ := ih hnil (s := { s with
        mailbox := update s.mailbox r.conn (some result)
        writer := .acking result rest
        acked := s.acked ++ [r] }) rfl
      refine ⟨s', ?_, hidle, hacked.trans (append_cons s.acked r rest).symm, hchannel⟩
      rw [length_cons, Db.answerAll, replicate_succ, foldlM_cons, hstep]
      exact hrun

theorem Db.answers_drained {batch : List Request} (hbatch : batch ≠ [])
    (h : s.writer = .drained batch) :
    s.Answers policy (.write .done :: Db.answerAll batch.length) batch := by
  obtain ⟨s', hstep, hwriter, hacked, hchannel⟩ : ∃ s', s.writerStep policy (.write .done) = some s' ∧
      s'.writer = .acking (.ok ()) batch ∧ s'.acked = s.acked ∧ s'.channel = s.channel := by
    rw [Db.writerStep, h]
    exact ⟨_, rfl, rfl, rfl, rfl⟩
  obtain ⟨s'', hrun, hidle, hacked', hchannel'⟩ := Db.answers_acking policy hbatch hwriter
  refine ⟨s'', ?_, hidle, hacked'.trans (by rw [hacked]), hchannel'.trans hchannel⟩
  rw [foldlM_cons, hstep]
  exact hrun

/-- The writer that is left alone answers every request it has not answered. -/
theorem Db.answers_remaining (hbusy : s.writer.Busy) : ∃ s',
    s.remaining.foldlM (Db.writerStep policy) s = some s' ∧
      s'.acked = s.acked ++ s.writer.answering ++ s.waiting := by
  have hfirst : s.Answers policy s.writer.remaining (s.writer.answering ++ s.writer.batch) := by
    cases hwriter : s.writer with
    | idle => exact ⟨s, rfl, hwriter, (append_nil _).symm, rfl⟩
    | drained batch =>
      rw [hwriter] at hbusy
      exact Db.answers_drained policy hbusy hwriter
    | acking result rest =>
      rw [hwriter] at hbusy
      show s.Answers policy (Db.answerAll rest.length) (rest ++ [])
      rw [append_nil]
      exact Db.answers_acking policy hbusy.2 hwriter
  obtain ⟨s₁, hrun, hidle, hacked, hchannel⟩ := hfirst
  rw [Db.remaining, foldlM_append, hrun]
  by_cases hnil : s.channel = []
  · refine ⟨s₁, ?_, ?_⟩
    · rw [if_pos hnil]
      rfl
    · rw [hacked, Db.waiting, hnil, append_nil, append_assoc]
  · have hdrain : s₁.writerStep policy (.drain s.channel.length) = some { s₁ with
        channel := []
        writer := .drained s.channel } := by
      rw [Db.writerStep, hidle, hchannel]
      dsimp only
      rw [if_pos ⟨length_pos_iff.mpr hnil, le_rfl⟩, drop_length, take_length]
    obtain ⟨s₂, hrun₂, -, hacked₂, -⟩ := Db.answers_drained policy hnil (s := { s₁ with
      channel := []
      writer := .drained s.channel }) rfl
    refine ⟨s₂, ?_, ?_⟩
    · rw [if_neg hnil]
      show (s₁.writerStep policy (.drain s.channel.length) >>= _) = _
      rw [hdrain]
      exact hrun₂
    · rw [hacked₂, Db.waiting, hacked]
      simp only [append_assoc]

end Answers

section
variable {policy : SyncPolicy} {log : List Entry} {store : Store} {s : Db}
variable {bytes : List UInt8}

/-- What a crash leaves of the log: all that was written, and a part of the batch that was being
written. -/
def Db.Crash (s : Db) (bytes : List UInt8) : Prop :=
  ∃ torn, torn <+: logBytes (s.writer.batch.map fun r => r.call.entry) ∧ bytes = s.file ++ torn

theorem Db.Logged.batch_subset (h : s.Logged policy log store) : s.writer.batch ⊆ s.sent := by
  intro r hr
  rw [h.sent]
  exact mem_append_right s.written (mem_append_left s.channel hr)

theorem Db.Logged.written_subset (h : s.Logged policy log store) : s.written ⊆ s.sent := by
  rw [h.sent]
  exact subset_append_left s.written s.waiting

theorem Db.Logged.recovers (h : s.Logged policy log store) (hcrash : s.Crash bytes) :
    ∃ more, more <+: s.writer.batch ∧
      Recovers bytes (log ++ (s.written ++ more).map fun r => r.call.entry) := by
  obtain ⟨torn, htorn, rfl⟩ := hcrash
  have hframable := h.framable h.batch_subset
  obtain ⟨done, rest, tail, hsplit, rfl, htail, -⟩ := logBytes_cut hframable htorn
  obtain ⟨more, rest', hbatch, rfl, -⟩ := map_eq_append_iff.mp hsplit
  have hmore : Framable (more.map fun r => r.call.entry) := by
    rw [hsplit] at hframable
    exact fun e he => hframable e (mem_append_left rest he)
  obtain ⟨ps, hv, hfile⟩ := h.file
  refine ⟨more, ⟨rest', hbatch.symm⟩, ?_⟩
  rw [hfile, map_append, ← append_assoc log]
  exact Recovers.append hv hmore htail

/-- The requests that a crash leaves unapplied are whole, and each belongs to the call its
connection is at. -/
theorem Db.Logged.phase_of_extra (h : s.Logged policy log store) (hok : s.Ok) {more : List Request}
    (hmore : more <+: s.writer.batch) :
    ∀ r ∈ s.unapplied ++ more, s.phase r.conn = .logged r.call ∨ s.phase r.conn = .queued r.call := by
  intro r hr
  rcases mem_append.mp hr with hr | hr
  · exact .inl ((h.unapplied r).mp hr)
  · exact .inr (hok.pipeline.queued r (mem_append_left s.channel (hmore.subset hr)))

/-- The replay after a crash gives the tables with the rows of the requests that were written and
not applied. -/
theorem Db.Logged.replays (h : s.Logged policy log store) (hwf : store.Wf)
    (hlog : log.foldlM applyEntry Store.empty = .ok store)
    (htables : store.Appends s.store s.batches.flatten) (hcrash : s.Crash bytes) :
    ∃ more, more <+: s.writer.batch ∧ ∃ store' file',
      Log.open applyEntry Store.empty (some bytes) = .ok (store', file') ∧
        s.store.Appends store' (inserted (s.unapplied ++ more)) := by
  obtain ⟨more, hmore, hrecovers⟩ := h.recovers hcrash
  have hsound : ∀ r ∈ s.written ++ more, r.Sound store :=
    forall_mem_append.mpr ⟨fun r hr => h.sound r (h.written_subset hr),
      fun r hr => h.sound r (h.batch_subset (hmore.subset hr))⟩
  obtain ⟨store', hreplay, happends⟩ := replay_requests hwf hsound
  obtain ⟨file', hopen⟩ := hrecovers.open_eq applyEntry Store.empty
  rw [foldlM_append, hlog, ok_bind, hreplay, ok_bind] at hopen
  refine ⟨more, hmore, store', file', hopen, ?_, ?_⟩
  · intro name t ht
    obtain ⟨t₀, ht₀, hschema, hrows⟩ := htables.of_lookup ht
    obtain ⟨t', ht', hschema', hrows'⟩ := happends.there name t₀ ht₀
    refine ⟨t', ht', hschema'.trans hschema.symm, ?_⟩
    rw [hrows', hrows, inserted_append, inserted_append, rowsFor_append, rowsFor_append, h.rows]
    simp only [append_assoc]
  · intro name hnone
    cases ht₀ : store.tables.lookup name with
    | none => exact happends.absent name ht₀
    | some t₀ =>
      obtain ⟨t, ht, -⟩ := htables.there name t₀ ht₀
      rw [hnone] at ht
      cases ht

theorem mem_inserted_of_rowsFor {table : String} {row : Row} {rs : List Request}
    (h : row ∈ rowsFor table (inserted rs)) : ∃ r ∈ rs, (table, row) ∈ r.call.inserts := by
  rw [rowsFor_inserted] at h
  obtain ⟨r, hr, hrow⟩ := mem_flatMap.mp h
  obtain ⟨p, hp, rfl⟩ := mem_map.mp hrow
  obtain ⟨hmem, hname⟩ := mem_filter.mp hp
  exact ⟨r, hr, of_decide_eq_true hname ▸ hmem⟩

variable {ex : Executor} {file : List UInt8} {w w' : World}
variable {e : MachineEvent}

/-- Connections insert, in transactions or not; no record is too long for its header. -/
def GroupCommits (w : World) (e : MachineEvent) : Prop := InsertsLogged w e ∧ RecordsFit w e
  deriving Decidable

theorem Call.isBatch.no_change {c : Call} (h : c.isBatch = true) :
    c.creates = none ∧ c.alters = none := by
  cases c with
  | insertRows rows => exact ⟨rfl, rfl⟩
  | _ => cases h

theorem InsertsLogged.noSchemaChange (h : InsertsLogged w e) : NoSchemaChange w e := by
  cases e with
  | start | finish | outside => trivial
  | perform i choice =>
    refine (any_eq_false _ _).mpr fun o ho => ?_
    cases o with
    | apply c =>
      have hbatch : c.isBatch = true := h c (by rw [ho]; rfl)
      obtain ⟨hcreates, halters⟩ := Call.isBatch.no_change hbatch
      simp [Operation.changesSchemas, hcreates, halters]
    | _ => rfl

theorem GroupCommits.allows (h : GroupCommits w e) : (discipline plainMode ex policy).Allows w e :=
  discipline_allows h.1.noSchemaChange.altersUnlocked False.elim False.elim

theorem step_logged (hholds : (discipline plainMode ex policy).Holds w)
    (hreads : w.ReadsStates ex store) (h : w.shared.Logged policy log store)
    (hguard : GroupCommits w e) (hstep : (machine ex policy).step w e = some w') :
    w'.shared.Logged policy log store := by
  cases Threads.step_steps hstep with
  | start _ => exact h
  | @perform i choice o k r s' l' htask hrun =>
    have hnext := next_eq htask
    have hbatch : ∀ c ∈ o.call, c.isBatch = true := by
      intro c hc
      exact hguard.1 c (by rwa [hnext])
    have hfits : ∀ c ∈ o.call, c.entry.encode.length < 2 ^ 32 := by
      intro c hc
      exact hguard.2 c (by rwa [hnext])
    exact (Operation.run_effect hrun).logged hholds.inv (hholds.pre htask) hbatch hfits
      hreads.tables h
  | finish _ =>
    exact ⟨h.file, h.synced, h.busy, h.sent, h.answered, h.sound, h.unapplied, h.once, h.rows,
      h.answering, h.mail⟩
  | @outside e s' hwrites =>
    refine (Db.writerStep_writes hwrites).logged hholds.inv ?_ h
    rintro io rfl
    exact hguard.1

theorem logged_of_run (hwf : store.Wf) (hranged : store.All Table.Ranged) (hfile : Holds file log)
    (hrun : Runs.Reach (machine ex policy).step GroupCommits (World.start store file) w) :
    w.shared.Ok ∧ w.ReadsStates ex store ∧ w.shared.Logged policy log store := by
  have hholds : (discipline plainMode ex policy).Holds w :=
    discipline_sound.run (start_holds hwf hranged file)
      (Runs.Reach.mono hrun fun _ _ => GroupCommits.allows)
  refine ⟨hholds.inv, discipline_sound.invariant (P := fun w : World => w.ReadsStates ex store ∧
    w.shared.Logged policy log store) hrun (fun _ _ => GroupCommits.allows)
    (start_holds hwf hranged file) ⟨readsStates_start, .start hfile⟩ ?_⟩
  rintro w e w' hholds ⟨hreads, hlogged⟩ hguard hstep
  exact ⟨step_readsStates hreads hguard.1.noSchemaChange hstep,
    step_logged hholds hreads hlogged hguard hstep⟩

/-- Rows are in the log before they are in a table, the log answers each request once and after
it has written it, an answer that waits for its connection is for the call it has sent last, and
whenever the server stops, the log gives the tables and at most whole
batches that were not applied yet. -/
theorem log_ahead_of_tables {content : Option (List UInt8)} (hwf : store.Wf)
    (hranged : store.All Table.Ranged)
    (hopen : Log.open applyEntry Store.empty content = .ok (store, file))
    (hrun : Runs.Reach (machine ex policy).step GroupCommits (World.start store file) w) :
    (∃ log, Holds file log ∧
      Holds w.shared.file (log ++ w.shared.written.map fun r => r.call.entry)) ∧
    (policy = .always → w.shared.synced = w.shared.file.length) ∧
    (∀ table t, w.shared.store.tables.lookup table = some t → ∃ t₀ added,
      store.tables.lookup table = some t₀ ∧ t.rows = t₀.rows ++ added ∧
        ∀ row ∈ added, ∃ r ∈ w.shared.written, (table, row) ∈ r.call.inserts) ∧
    (w.shared.acked <+: w.shared.written ∧ w.shared.written <+: w.shared.sent) ∧
    (∀ i result, w.shared.mailbox i = some result → result = .ok () ∧
      ∃ r ∈ w.shared.acked, r.conn = i ∧ w.shared.phase i = .logged r.call) ∧
    (∃ s, w.shared.remaining.foldlM (Db.writerStep policy) w.shared = some s ∧
      s.acked = w.shared.sent) ∧
    ∀ bytes, w.shared.Crash bytes → ∃ more, more <+: w.shared.writer.batch ∧
      (∀ r ∈ w.shared.unapplied ++ more,
        w.shared.phase r.conn = .logged r.call ∨ w.shared.phase r.conn = .queued r.call) ∧
      ∃ store' file', Log.open applyEntry Store.empty (some bytes) = .ok (store', file') ∧
        w.shared.store.Appends store' (inserted (w.shared.unapplied ++ more)) := by
  obtain ⟨log, hfile, hlog⟩ := holds_of_open hopen
  obtain ⟨hok, hreads, h⟩ := logged_of_run hwf hranged hfile hrun
  have hanswers := Db.answers_remaining policy h.busy
  rw [← h.answered, ← h.sent] at hanswers
  refine ⟨⟨log, hfile, h.file⟩, h.synced, fun table t ht => ?_,
    ⟨⟨_, h.answered.symm⟩, ⟨_, h.sent.symm⟩⟩, h.mail, hanswers, fun bytes hcrash => ?_⟩
  · obtain ⟨t₀, ht₀, -, hrows⟩ := hreads.tables.of_lookup ht
    refine ⟨t₀, _, ht₀, hrows, fun row hrow => mem_inserted_of_rowsFor ?_⟩
    rw [h.rows]
    exact mem_append_left _ hrow
  · obtain ⟨more, hmore, hreplays⟩ := h.replays hwf hlog hreads.tables hcrash
    exact ⟨more, hmore, h.phase_of_extra hok hmore, hreplays⟩

end

def keyedAndPlainLog : List Entry :=
  [.createTable "t" [⟨"id", .int, false, false⟩] (some "id"),
    .createTable "u" [⟨"a", .int, true, false⟩] none]

theorem open_keyedAndPlainLog : Log.open applyEntry Store.empty (some (logBytes keyedAndPlainLog)) =
      .ok (keyedAndPlain, logBytes keyedAndPlainLog) := by
  rw [open_logBytes Store.empty (by decide)]
  rfl

def oneBatchSchedule : List MachineEvent :=
  .start 1 (insertInto "t" 1) :: steps 1 4 ++ .start 2 (insertInto "u" 5) :: steps 2 4 ++
    [.outside (.drain 2), .outside (.write .done), .outside .ack] ++ steps 1 2

/-- The server stops there: the second row is not in the table, but in the log. -/
theorem log_ahead_of_tables_oneBatch :
    ∃ w : World, oneBatchSchedule.foldlM (machine plainExecutor .always).step
        (World.start keyedAndPlain (logBytes keyedAndPlainLog)) = some w ∧
      (w.shared.store.tables.lookup "t").map Table.rows = some [[.int 1]] ∧
      (w.shared.store.tables.lookup "u").map Table.rows = some [] ∧
      ∃ store file, Log.open applyEntry Store.empty (some w.shared.file) = .ok (store, file) ∧
        (store.tables.lookup "u").map Table.rows = some [[.int 5]] := by
  have hallowed : Runs.Allowed (machine plainExecutor .always).step GroupCommits
      (World.start keyedAndPlain (logBytes keyedAndPlainLog)) oneBatchSchedule := by
    decide +kernel
  have hstate : ∃ w ∈ oneBatchSchedule.foldlM (machine plainExecutor .always).step
        (World.start keyedAndPlain (logBytes keyedAndPlainLog)),
      (w.shared.store.tables.lookup "t").map Table.rows = some [[.int 1]] ∧
      (w.shared.store.tables.lookup "u").map Table.rows = some [] ∧ w.shared.writer.batch = [] ∧
      rowsFor "u" (inserted w.shared.unapplied) = [[.int 5]] := by
    decide +kernel
  obtain ⟨w, hw, ht, hu, hbatch, hrows⟩ := hstate
  have hranged : keyedAndPlain.All Table.Ranged := fun name t ht =>
    Table.Built.ranged (keyedAndPlain_built name t ht)
  obtain ⟨-, -, -, -, -, -, hcrash⟩ :=
    log_ahead_of_tables keyedAndPlain_wf hranged open_keyedAndPlainLog (hallowed.reach hw)
  obtain ⟨more, hmore, -, store, file, hopen, happends⟩ :=
    hcrash w.shared.file ⟨[], nil_prefix, (append_nil _).symm⟩
  rw [hbatch, prefix_nil] at hmore
  obtain ⟨u, hlookup, hnone⟩ := map_eq_some_iff.mp hu
  obtain ⟨u', hlookup', -, hrows'⟩ := happends.there "u" u hlookup
  refine ⟨w, hw, ht, hu, store, file, hopen, ?_⟩
  rw [hlookup', map_some, hrows', hnone, hmore, append_nil, hrows]
  rfl

def holding (others : Nat → Threads.Thread Operation Operation.Resp Error QueryResult Conn)
    (tx : Transaction) (history : List (Option Statement × Result QueryResult)) : World :=
  ⟨{ Db.start oneColumnStore (logBytes oneColumnLog) with
      owner := update (fun _ => none) "t" (some 1) },
    update others 1 ⟨{ Conn.fresh with
      tx := some tx
      locked := ["t"]
      history
      resolved := some ("t", ⟨[⟨"a", .int, true, false⟩], none⟩) }, none⟩⟩

def insertAgain : List MachineEvent := .start 1 (insertInto "t" 1) :: steps 1 3 ++ [.finish 1]

def insertMany (n : Nat) : List MachineEvent := (replicate n insertAgain).flatten

def pushed : Nat → Transaction
  | 0 => .new
  | n + 1 => (pushed n).push "t" [.int 1]

theorem rows_pushed (n : Nat) : (pushed n).rows "t" = replicate n [.int 1] := by
  induction n with
  | zero => rfl
  | succ n ih => rw [pushed, Transaction.rows_push, if_pos rfl, ih, replicate_succ']

theorem order_pushed (n : Nat) : (pushed (n + 1)).Order ["t"] := by
  refine ⟨nodup_singleton "t", ?_⟩
  induction n with
  | zero => decide
  | succ n ih =>
    ext a
    have hold : a = "t" ↔ a ∈ (pushed (n + 1)).pending := by
      rw [← Finmap.mem_keys, ← ih]
      simp
    rw [Finmap.mem_keys]
    show _ ↔ a ∈ Finmap.insert "t" _ (pushed (n + 1)).pending
    rw [Finmap.mem_insert, ← hold]
    simp

theorem commitRows_pushed (n : Nat) :
    .insertRows ((pushed n).commitRows ["t"]) = Transaction.commit [("t", replicate n [.int 1])] := by
  rw [← Transaction.commit_batch, Transaction.batch, map_singleton, rows_pushed]

theorem run_insertMany (n m : Nat) (others) (history) : ∃ others' history',
    (insertMany n).foldlM (machine plainExecutor .always).step (holding others (pushed m) history) =
      some (holding others' (pushed (m + n)) history') := by
  induction n generalizing m others history with
  | zero => exact ⟨others, history, rfl⟩
  | succ n ih =>
    obtain ⟨others₁, history₁, hfirst⟩ : ∃ others₁ history₁,
        insertAgain.foldlM (machine plainExecutor .always).step (holding others (pushed m) history) =
          some (holding others₁ (pushed (m + 1)) history₁) := ⟨_, _, rfl⟩
    obtain ⟨others', history', hrest⟩ := ih (m + 1) others₁ history₁
    rw [Nat.add_right_comm] at hrest
    exact ⟨others', history', (Runs.foldlM_append_of_some hfirst _).trans hrest⟩

def beginAndInsert : List MachineEvent :=
  .start 1 (.execute .begin) :: steps 1 2 ++ [.finish 1] ++ .start 1 (insertInto "t" 1) :: steps 1 4 ++
    [.finish 1]

theorem run_beginAndInsert : ∃ others history, beginAndInsert.foldlM (machine plainExecutor .always).step
    (World.start oneColumnStore (logBytes oneColumnLog)) = some (holding others (pushed 1) history) :=
  ⟨_, _, rfl⟩

def running (others : Nat → Threads.Thread Operation Operation.Resp Error QueryResult Conn)
    (l : Conn) (task : Program QueryResult) : World :=
  ⟨{ Db.start oneColumnStore (logBytes oneColumnLog) with
      owner := update (fun _ => none) "t" (some 1) }, update others 1 ⟨l, some task⟩⟩

theorem step_running {o : Operation} {k : Outcome Error o.Resp → Program QueryResult}
    {r : Outcome Error o.Resp} {choice : Choice} {l l' : Conn} (others)
    (hrun : o.run 1 choice (running others l (.op o k)).shared l =
      some (r, (running others l (.op o k)).shared, l')) :
    ∃ others', (machine plainExecutor .always).step (running others l (.op o k)) (.perform 1 choice) =
      some (running others' l' (k r)) :=
  ⟨_, congrArg (Option.map _) hrun⟩

def commitLogged : List MachineEvent :=
  [.start 1 (.execute .commit), .perform 1 ⟨false, ["t"]⟩] ++ steps 1 2 ++
    [.outside (.drain 1), .outside (.write .done)]

theorem run_commitLogged {tx : Transaction} (horder : tx.Order ["t"])
    (hcheck : check oneColumnStore (.insertRows (tx.commitRows ["t"])) = .ok true) (others) (history) :
    ∃ w, commitLogged.foldlM (machine plainExecutor .always).step (holding others tx history) = some w ∧
      w.shared.file = logBytes oneColumnLog ++ logBytes [.transaction (tx.commitRows ["t"])] := by
  obtain ⟨others₁, l, k, k', k'', hstart, htx, hlocked, htaken, hchecked⟩ : ∃ others₁ l k k' k'',
      (machine plainExecutor .always).step (holding others tx history) (.start 1 (.execute .commit)) =
        some (running others₁ l (.op .takeTransaction k)) ∧
      l.tx = some tx ∧ l.locked = ["t"] ∧
      k (.ok (some (tx.commitRows ["t"], ["t"]))) = .op (.check (.insertRows (tx.commitRows ["t"]))) k' ∧
      k' (.ok true) = .op (.submit (.insertRows (tx.commitRows ["t"]))) k'' :=
    ⟨_, _, _, _, _, rfl, rfl, rfl, rfl, rfl⟩
  have htake : Operation.takeTransaction.run 1 ⟨false, ["t"]⟩
      (running others₁ l (.op .takeTransaction k)).shared l =
        some (.ok (some (tx.commitRows ["t"], ["t"])),
          (running others₁ l (.op .takeTransaction k)).shared, { l with tx := none, locked := [] }) := by
    rw [Operation.run, htx]
    dsimp only
    rw [if_pos horder, hlocked]
  obtain ⟨others₂, hstep₂⟩ := step_running others₁ htake
  rw [htaken] at hstep₂
  have hrun₃ : (Operation.check (.insertRows (tx.commitRows ["t"]))).run 1 {}
      (running others₂ { l with tx := none, locked := [] } (.op (.check (.insertRows (tx.commitRows ["t"]))) k')).shared
      { l with tx := none, locked := [] } = some (.ok true, _, _) :=
    congrArg (fun result => some (result, _, _)) hcheck
  obtain ⟨others₃, hstep₃⟩ := step_running others₂ hrun₃
  rw [hchecked] at hstep₃
  obtain ⟨w, hrest, hfile⟩ : ∃ w, [.perform 1 {}, .outside (.drain 1), .outside (.write .done)].foldlM
      (machine plainExecutor .always).step (running others₃ { l with tx := none, locked := [] }
        (.op (.submit (.insertRows (tx.commitRows ["t"]))) k'')) = some w ∧
      w.shared.file = logBytes oneColumnLog ++ logBytes [.transaction (tx.commitRows ["t"])] :=
    ⟨_, rfl, rfl⟩
  refine ⟨w, ?_, hfile⟩
  calc commitLogged.foldlM (machine plainExecutor .always).step (holding others tx history)
    _ = _ := Runs.foldlM_cons_of_some hstart _
    _ = _ := Runs.foldlM_cons_of_some hstep₂ _
    _ = _ := Runs.foldlM_cons_of_some hstep₃ _
    _ = some w := hrest

def largeCommit (n : Nat) : List MachineEvent := beginAndInsert ++ insertMany n ++ commitLogged

theorem run_largeCommit (n : Nat) : ∃ w : World, (largeCommit n).foldlM
    (machine plainExecutor .always).step (World.start oneColumnStore (logBytes oneColumnLog)) = some w ∧
      w.shared.file = logBytes (oneColumnLog ++
        [(Transaction.commit [("t", replicate (n + 1) [.int 1])]).entry]) := by
  obtain ⟨others, history, hbegin⟩ := run_beginAndInsert
  obtain ⟨others', history', hinsert⟩ := run_insertMany n 1 others history
  rw [Nat.add_comm] at hinsert
  have hcheck := check_commit_replicate (Nat.succ_ne_zero n)
  rw [← commitRows_pushed] at hcheck ⊢
  obtain ⟨w, hcommit, hfile⟩ := run_commitLogged (order_pushed n) hcheck others' history'
  refine ⟨w, ?_, hfile.trans (logBytes_append _ _).symm⟩
  rw [largeCommit, append_assoc, Runs.foldlM_append_of_some hbegin,
    Runs.foldlM_append_of_some hinsert, hcommit]

/-- The record of a large `COMMIT` is written; when the server stops then, it does not start any
more. -/
theorem open_largeCommit : Log.open applyEntry Store.empty (some (logBytes oneColumnLog)) =
        .ok (oneColumnStore, logBytes oneColumnLog) ∧
      ∃ w : World, (largeCommit (2 ^ 28)).foldlM (machine plainExecutor .always).step
        (World.start oneColumnStore (logBytes oneColumnLog)) = some w ∧
      ∃ bytes, w.shared.Crash bytes ∧ ∀ out, Log.open applyEntry Store.empty (some bytes) ≠ .ok out := by
  obtain ⟨w, hrun, hfile⟩ := run_largeCommit (2 ^ 28)
  refine ⟨open_oneColumnLog, w, hrun, w.shared.file, ⟨[], nil_prefix, (append_nil _).symm⟩, ?_⟩
  rw [hfile]
  refine open_oversized_ne_ok Store.empty ?_ ?_
  · intro e he
    rcases mem_append.mp he with he | he
    · have ht : (utf8 "t").length = 1 := by decide
      have ha : (utf8 "a").length = 1 := by decide
      rw [mem_singleton.mp he]
      simp [Entry.Narrow, StringNarrow, ColumnSchema.Narrow, ht, ha]
    · rw [mem_singleton.mp he]
      exact entry_commit_narrow (by decide)
  · intro hframable
    have hlen := hframable _ (mem_append_right oneColumnLog mem_cons_self)
    rw [encode_commit_length] at hlen
    exact absurd hlen (by decide)

end MysqlRust
