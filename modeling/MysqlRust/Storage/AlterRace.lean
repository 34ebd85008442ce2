import MysqlRust.Storage.Commuting
import MysqlRust.Storage.Transaction

/-! # Concurrent `ALTER TABLE` and `INSERT`

`ALTER TABLE` takes no table lock, so records can reach the log in one order and memory in
another.
-/
namespace MysqlRust

open List Outcome

instance (s : Store) (p : String × Row) : Decidable (s.Fits p) :=
  inferInstanceAs (Decidable (∀ t ∈ s.tables.lookup p.1, p.2.length = t.schema.columns.length))

def Clear (d c : Call) : Prop := ∀ p ∈ c.inserts, d.alters ≠ some p.1
  deriving Decidable

/-- Writes succeed, a call is applied ahead only of calls it commutes with, and an `INSERT` is
logged only while its rows fit and no `ALTER TABLE` of their tables waits ahead of it. -/
def AltersInTurn (s : Sys) : Action → Prop
  | .check c => c.creates = none
  | .write batch io => io = .done ∧ Framable (batch.map Call.entry) ∧
      (∀ c ∈ batch, ∀ p ∈ c.inserts, s.store.Fits p) ∧ (s.queue ++ batch).Pairwise Clear
  | .apply c => ∀ d ∈ s.queue.takeWhile (· ≠ c), Separate d c
  | .nextAutoIncrement _ => True

instance (s : Sys) (a : Action) : Decidable (AltersInTurn s a) := by
  unfold AltersInTurn
  rcases a with ⟨⟩ <;> infer_instance

section Fits
variable {s s' : Store}
variable {c : Call} {p : String × Row}

theorem fitsEntry_entry : s.FitsEntry c.entry ↔ ∀ p ∈ c.inserts, s.Fits p := by
  cases c <;> simp [Store.FitsEntry, Call.entry, Call.inserts]

theorem Store.Same.fits (h : s.Same s') (hp : s.Fits p) : s'.Fits p := by
  intro u hu
  have htables := h.tables p.1
  rw [hu] at htables
  generalize hs : s.tables.lookup p.1 = t at htables
  cases htables with
  | some htu => exact (hp _ hs).trans (by rw [htu.schema])

theorem applyEntry_fits (hc : c.creates = none) (hp : c.alters ≠ some p.1)
    (h : applyEntry s c.entry = .ok s') (hs : s.Fits p) : s'.Fits p := by
  cases c with
  | createTable name columns primaryKey => cases hc
  | alterTable name change =>
    have hne : p.1 ≠ name := fun heq => hp (by simp [Call.alters, heq])
    simp only [Call.entry, applyEntry, applyAlter] at h
    split at h
    · split at h
      · cases h
        intro u hu
        rw [lookup_setTable_of_ne _ _ _ hne] at hu
        exact hs u hu
      · cases h
        exact hs
      · simp at h
    · cases h
      exact hs
  | insertRow table row => exact pushRow_fits h hs
  | insertRows rows =>
    exact foldlM_invariant (P := fun u => u.Fits p) (fun _ _ _ hu h => pushRow_fits h hu)
      hs h
  | createDatabase name ifNotExists =>
    cases h
    exact hs
  | dropDatabase name ifExists =>
    cases h
    exact hs

end Fits

structure Sys.InTurn (s : Sys) : Prop where
  wf : s.store.Wf
  logged : ∃ log, Holds s.file log ∧ Durable log (s.queue.map Call.entry) s.store
  fits : ∀ c ∈ s.queue, ∀ p ∈ c.inserts, s.store.Fits p
  order : s.queue.Pairwise Clear
  noCreate : ∀ c ∈ s.checked ++ s.queue, c.creates = none

section Invariant
variable {policy : SyncPolicy} {s s' : Sys}

theorem queue_wf {queue : List Call} {s m : Store} (hs : s.Wf)
    (hfits : ∀ c ∈ queue, ∀ p ∈ c.inserts, s.Fits p)
    (horder : queue.Pairwise Clear)
    (hcreate : ∀ c ∈ queue, c.creates = none)
    (h : (queue.map Call.entry).foldlM applyEntry s = .ok m) :
    m.Wf ∧ ∀ p, s.Fits p → (∀ d ∈ queue, d.alters ≠ some p.1) → m.Fits p := by
  induction queue generalizing s with
  | nil =>
    cases h
    exact ⟨hs, fun _ hp _ => hp⟩
  | cons c queue ih =>
    rw [map_cons, foldlM_cons] at h
    obtain ⟨s₁, hs₁, h⟩ := bind_eq_ok.mp h
    obtain ⟨hc, horder⟩ := pairwise_cons.mp horder
    have hnone := hcreate c mem_cons_self
    obtain ⟨s₁', hs₁', hwf⟩ := applyEntry_wf hs
      (fitsEntry_entry.mpr (hfits c mem_cons_self))
    cases hs₁.symm.trans hs₁'
    obtain ⟨hm, hkeep⟩ := ih hwf
      (fun d hd p hp => applyEntry_fits hnone (hc d hd p hp) hs₁
        (hfits d (mem_cons_of_mem c hd) p hp))
      horder (fun d hd => hcreate d (mem_cons_of_mem c hd)) h
    refine ⟨hm, fun p hp hnot => hkeep p ?_ fun d hd => hnot d (mem_cons_of_mem c hd)⟩
    exact applyEntry_fits hnone (hnot c mem_cons_self) hs₁ hp

theorem Sys.InTurn.enqueue (h : s.InTurn) {c : Call} (hc : c ∈ s.checked)
    (hlen : c.entry.encode.length < 2 ^ 32) (hfits : ∀ p ∈ c.inserts, s.store.Fits p)
    (hclear : ∀ d ∈ s.queue, Clear d c) : (s.enqueue c).InTurn := by
  obtain ⟨log, hholds, hdurable⟩ := h.logged
  have hnoCreate : ∀ d ∈ s.queue, d.creates = none := fun d hd =>
    h.noCreate d (mem_append_right _ hd)
  refine ⟨h.wf, ⟨log ++ [c.entry], hholds.enqueue hlen, ?_⟩, ?_, ?_, ?_⟩
  · have happend := hdurable.append respects_same c.entry fun m hm => by
      obtain ⟨hwf, hkeep⟩ := queue_wf h.wf h.fits h.order hnoCreate hm
      obtain ⟨m', hm', -⟩ := applyEntry_wf hwf
        (fitsEntry_entry.mpr fun p hp => hkeep p (hfits p hp) fun d hd => hclear d hd p hp)
      exact ⟨m', hm'⟩
    simpa [Sys.enqueue] using happend
  · exact forall_mem_append.mpr ⟨h.fits, forall_mem_singleton.mpr hfits⟩
  · refine pairwise_append.mpr ⟨h.order, pairwise_singleton _ _, fun d hd => ?_⟩
    exact forall_mem_singleton.mpr (hclear d hd)
  · exact fun d hd => h.noCreate d ((enqueue_perm hc).mem_iff.mp hd)

theorem Clear.of_separate {d c : Call} (h : Separate d c) : Clear c d := by
  intro p hp halters
  refine h.1 p.1 (mem_append_right _ (mem_map_of_mem hp)) ?_
  simp [Call.tables, halters]

theorem Sys.InTurn.apply (h : s.InTurn) {c : Call}
    (hseparate : ∀ d ∈ s.queue.takeWhile (· ≠ c), Separate d c)
    (hstep : s.step policy (.apply c) = some s') : s'.InTurn := by
  obtain ⟨log, hholds, r, m, hr, hm, hsame⟩ := h.logged
  obtain ⟨hmem, hresult⟩ := step_apply hstep
  rw [← replay_cons_erase hmem hseparate, map_cons] at hm
  obtain ⟨store, hentry, hdurable⟩ := WriteAhead.Durable.apply ⟨r, m, hr, hm, hsame⟩
  have hcreate : c.creates = none := h.noCreate c (mem_append_right _ hmem)
  have hsettle : settle s.store (MysqlRust.apply s.store c) = .ok store := by
    rw [← hentry, applyEntry_entry]
    rintro name columns primaryKey rfl
    cases hcreate
  obtain ⟨store', hstore', hwf⟩ := applyEntry_wf h.wf (fitsEntry_entry.mpr (h.fits c hmem))
  cases hentry.symm.trans hstore'
  have hclear : ∀ d ∈ s.queue.erase c, Clear c d := by
    obtain ⟨behind, hqueue, herase⟩ := Lists.erase_eq_takeWhile hmem
    have horder := h.order
    rw [hqueue, pairwise_append, pairwise_cons] at horder
    intro d hd
    rw [herase] at hd
    exact (mem_append.mp hd).elim (fun hd => .of_separate (hseparate d hd)) (horder.2.1.1 d)
  have hfits : ∀ d ∈ s.queue.erase c, ∀ p ∈ d.inserts, store.Fits p := fun d hd p hp =>
    applyEntry_fits hcreate (hclear d hd p hp) hentry (h.fits d (mem_of_mem_erase hd) p hp)
  have horder := h.order.sublist (erase_sublist (a := c))
  have hnoCreate : ∀ d ∈ s'.checked ++ s'.queue, d.creates = none := fun d hd =>
    (step_calls hstep hd).elim (h.noCreate d) nofun
  -- a call that fails here leaves memory as replay leaves the table: unchanged
  obtain ⟨store'', hstore'', rfl⟩ | ⟨e, he, rfl⟩ := hresult
  · rw [hstore''] at hsettle
    cases hsettle
    exact ⟨hwf, ⟨log, hholds, hdurable⟩, hfits, horder, hnoCreate⟩
  · rw [he] at hsettle
    cases hsettle
    exact ⟨hwf, ⟨log, hholds, hdurable⟩, hfits, horder, hnoCreate⟩

theorem step_inTurn (a : Action) (h : s.InTurn) (hg : AltersInTurn s a)
    (hstep : s.step policy a = some s') : s'.InTurn := by
  cases a with
  | check c =>
    have hnoCreate : ∀ d ∈ s'.checked ++ s'.queue, d.creates = none := fun d hd =>
      (step_calls hstep hd).elim (h.noCreate d) fun heq => Action.check.inj heq ▸ hg
    obtain ⟨-, ⟨-, rfl⟩ | ⟨-, rfl⟩ | ⟨e, rfl⟩⟩ := step_check hstep
    · exact ⟨h.wf, h.logged, h.fits, h.order, hnoCreate⟩
    · exact ⟨h.wf, h.logged, h.fits, h.order, hnoCreate⟩
    · exact ⟨h.wf, h.logged, h.fits, h.order, hnoCreate⟩
  | write batch io =>
    obtain ⟨rfl, hframable, hfits, hclear⟩ := hg
    apply write_invariant h hstep
    intro u c rest hu hstore hc hbatch hqueue
    rw [← hqueue] at hclear
    exact hu.enqueue hc (hframable c.entry (mem_map_of_mem hbatch))
      (fun p hp => hstore ▸ hfits c hbatch p hp)
      fun d hd => (pairwise_append.mp hclear).2.2 d hd c mem_cons_self
  | apply c => exact h.apply hg hstep
  | nextAutoIncrement table =>
    rcases step_nextAutoIncrement hstep with rfl | ⟨store, v, hn, rfl⟩
    · exact h
    · obtain ⟨hwf, hsame⟩ := nextAutoIncrement_eq_ok h.wf hn
      obtain ⟨log, hholds, hdurable⟩ := h.logged
      exact ⟨hwf, ⟨log, hholds, hdurable.change respects_same hsame⟩,
        fun c hc p hp => hsame.fits (h.fits c hc p hp), h.order, h.noCreate⟩

end Invariant

/-- In every state of a run the log opens, and when no acknowledged call waits to be applied
it opens to the tables and databases in memory. -/
theorem open_after_alters (policy : SyncPolicy) {content : Option (List UInt8)} {st : Store}
    {file : List UInt8} (hopen : Log.open applyEntry Store.empty content = .ok (st, file))
    (hst : st.Wf) {s : Sys}
    (hrun : Runs.Reach (Sys.step policy) AltersInTurn (.start st file) s) :
    ∃ r, Log.open applyEntry Store.empty (some s.file) = .ok (r, s.file) ∧
      (s.queue = [] → r.Same s.store) := by
  obtain ⟨log, hholds, hlog⟩ := holds_of_open hopen
  have hstart : (Sys.start st file).InTurn :=
    ⟨hst, ⟨log, hholds, st, st, hlog, rfl, Store.Same.refl st⟩, by simp [Sys.start], .nil,
      by simp [Sys.start]⟩
  have hinv := hrun.invariant hstart fun _ a _ h hg hstep => step_inTurn a h hg hstep
  obtain ⟨log', hholds', r, m, hr, hm, hsame⟩ := hinv.logged
  refine ⟨r, by rw [hholds'.open_eq, hr, ok_bind], ?_⟩
  intro hqueue
  rw [hqueue] at hm
  cases hm
  exact hsame

def oneColumnLog : List Entry := [.createTable "t" [⟨"a", .int, true, false⟩] none]

theorem open_oneColumnLog : Log.open applyEntry Store.empty (some (logBytes oneColumnLog)) =
    .ok (oneColumnStore, logBytes oneColumnLog) :=
  open_logBytes Store.empty (by decide)

def insertOne : Call := .insertRows [("t", [.int 1])]

def addKey : Call := .alterTable "t" (.addColumn ⟨"k", .int, false, false⟩ true)

def addNote : Call := .alterTable "t" (.addColumn ⟨"note", .varchar, true, false⟩ false)

def inTurnSchedule : List Action :=
  [.check insertOne, .check addNote, .write [insertOne, addNote] .done, .apply insertOne,
    .apply addNote]

theorem open_inTurnSchedule :
    ∃ s, inTurnSchedule.foldlM (Sys.step .always) (.start oneColumnStore (logBytes oneColumnLog)) =
        some s ∧
      ∃ r, Log.open applyEntry Store.empty (some s.file) = .ok (r, s.file) ∧
        (s.queue = [] → r.Same s.store) := by
  have hwf : oneColumnStore.Wf := all_empty.setTable (Table.new_wf _ _) _
  have hallowed : Runs.Allowed (Sys.step .always) AltersInTurn
      (.start oneColumnStore (logBytes oneColumnLog)) inTurnSchedule := by
    decide +kernel
  obtain ⟨s, hs⟩ : ∃ s, inTurnSchedule.foldlM (Sys.step .always)
      (.start oneColumnStore (logBytes oneColumnLog)) = some s := ⟨_, rfl⟩
  exact ⟨s, hs, open_after_alters .always open_oneColumnLog hwf (hallowed.reach hs)⟩

def overtakenSchedule : List Action :=
  [.check insertOne, .check addKey, .write [addKey] .done, .write [insertOne] .done,
    .apply insertOne, .apply addKey]

/-- Memory keeps the row and refuses the key; replay adds the key first and indexes the row
out of range. -/
theorem overtakenSchedule_panics : ∃ s, overtakenSchedule.foldlM (Sys.step .always)
        (.start oneColumnStore (logBytes oneColumnLog)) = some s ∧
      s.Quiescent ∧ (s.store.tables.lookup "t").map Table.rows = some [[.int 1]] ∧
      Log.open applyEntry Store.empty (some s.file) = .panic := by
  have hopen : Log.open applyEntry Store.empty
      (some (logBytes (oneColumnLog ++ [addKey.entry, insertOne.entry]))) =
      (oneColumnLog ++ [addKey.entry, insertOne.entry]).foldlM applyEntry Store.empty >>=
        fun r => .ok (r, logBytes (oneColumnLog ++ [addKey.entry, insertOne.entry])) :=
    open_logBytes Store.empty (by decide)
  have hpanic : (oneColumnLog ++ [addKey.entry, insertOne.entry]).foldlM applyEntry Store.empty =
      .panic := by
    decide +kernel
  have hfile : Sys.file <$> overtakenSchedule.foldlM (Sys.step .always)
      (.start oneColumnStore (logBytes oneColumnLog)) =
      some (logBytes (oneColumnLog ++ [addKey.entry, insertOne.entry])) := by
    decide +kernel
  refine ⟨_, rfl, ⟨rfl, rfl⟩, by decide +kernel, ?_⟩
  rw [Option.some.inj hfile, hopen, hpanic, panic_bind]

end MysqlRust
