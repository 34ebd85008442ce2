import MysqlRust.Storage.Commuting

/-! # Calls that fail to write

A batch that fails to write or to sync fails every call in it, but the bytes that reached the
file stay there.
-/
namespace MysqlRust

open List Outcome

def Io.Acked (policy : SyncPolicy) : Io → Prop
  | .done => True
  | .writeFailed _ _ => False
  | .syncFailed _ => policy = .never

def succeeded (replies : List (Call × Result Unit)) : List Entry :=
  acked (replies.map fun r => (r.1.entry, r.2))

@[simp] theorem succeeded_append (rs qs : List (Call × Result Unit)) :
    succeeded (rs ++ qs) = succeeded rs ++ succeeded qs := by
  simp [succeeded]

/-- Records fit their headers and go behind whole records, a failed batch leaves less than
its first record, and an acknowledged call is applied while its check would still pass and
ahead only of calls it commutes with. -/
def FailsClean (policy : SyncPolicy) (s : Sys) : Action → Prop
  | .write batch io =>
    Framable (batch.map Call.entry) ∧ BehindWhole s.file (batch.map Call.entry) io ∧
      (¬ io.Acked policy → ∀ c ∈ batch.head?,
        (io.reached (logBytes (batch.map Call.entry))).length < (frameRecord c.entry.encode).length)
  | .apply c => (∀ d ∈ s.queue.takeWhile (· ≠ c), Separate d c) ∧ check s.store c = .ok true
  | _ => True

theorem writeFramedBatch_ok_iff {policy : SyncPolicy} {file framed : List UInt8} {io : Io} :
    (Log.writeFramedBatch policy file framed io).2 = .ok () ↔ io.Acked policy := by
  cases io with
  | done => simp [Log.writeFramedBatch, Io.Acked]
  | writeFailed written message => simp [Log.writeFramedBatch, Io.Acked]
  | syncFailed message => cases policy <;> simp [Log.writeFramedBatch, Io.Acked]

theorem Recovers.cut {file : List UInt8} {es batch : List Entry} {io : Io}
    (hfile : Recovers file es) (hbatch : Framable batch) (hstep : BehindWhole file batch io)
    (hcut : ∀ e ∈ batch.head?, (io.reached (logBytes batch)).length < (frameRecord e.encode).length) :
    Recovers (file ++ io.reached (logBytes batch)) es := by
  have hprefix := reached_prefix_framed (logBytes batch) io
  rcases hstep with hnone | hwhole
  · rwa [hnone, append_nil]
  · obtain ⟨ps, hv, rfl⟩ := hfile.of_whole hwhole
    refine ⟨ps, io.reached (logBytes batch), hv, ?_, rfl⟩
    cases batch with
    | nil =>
      rw [prefix_nil.mp hprefix]
      exact tornTail_nil
    | cons e rest =>
      have hlt := hcut e rfl
      refine ⟨e.encode, hbatch e mem_cons_self, _, hlt, ?_⟩
      exact prefix_iff_eq_take.mp
        (prefix_of_prefix_length_le hprefix (prefix_append _ _) hlt.le)

/-- What one guarded batch leaves: all of its records behind the old ones and all of its
calls in the queue, or neither. -/
theorem step_write_recovers {policy : SyncPolicy} {s s' : Sys} {es : List Entry}
    {batch : List Call} {io : Io} (hfile : Recovers s.file es)
    (hg : FailsClean policy s (.write batch io))
    (hstep : s.step policy (.write batch io) = some s') :
    s'.store = s.store ∧ (s'.queue = s.queue ++ batch ∧ s'.replies = s.replies ∧
          Recovers s'.file (es ++ batch.map Call.entry) ∨
        ∃ e, s'.queue = s.queue ∧ s'.replies = s.replies ++ batch.map (fun c => (c, .err e)) ∧
          Recovers s'.file es) := by
  obtain ⟨hframable, hbehind, hcut⟩ := hg
  obtain ⟨-, ⟨hok, rfl⟩ | ⟨e, hfail, rfl⟩⟩ := step_write hstep
  · obtain ⟨all, -, hall, hrec⟩ := writeFramedBatch_recovers policy hfile hframable hbehind
    rw [hall hok] at hrec
    exact ⟨rfl, .inl ⟨rfl, rfl, by simpa only [writeFramedBatch_fst] using hrec⟩⟩
  · refine ⟨rfl, .inr ⟨e, rfl, rfl, hfile.cut hframable hbehind ?_⟩⟩
    rw [Ne, writeFramedBatch_ok_iff] at hfail
    intro f hf
    rw [head?_map, Option.mem_map] at hf
    obtain ⟨c, hc, rfl⟩ := hf
    exact hcut hfail c hc

section Invariant
variable {policy : SyncPolicy} {st : Store} {base : List Entry} {s s' : Sys}

/-- The file holds the records the store was opened from and others that replay as those of
calls that returned `Ok` and then those of calls not applied yet; the former replay to memory. -/
structure Sys.Clean (st : Store) (base : List Entry) (s : Sys) : Prop where
  wf : s.store.Wf
  written : ∃ log written r, written.Sublist (succeeded s.replies) ∧ Recovers s.file (base ++ log) ∧
    log.foldlM applyEntry st = (written ++ s.queue.map Call.entry).foldlM applyEntry st ∧
    written.foldlM applyEntry st = .ok r ∧ r.Same s.store

theorem Sys.Clean.reply (h : s.Clean st base) (more : List (Call × Result Unit)) :
    Sys.Clean st base { s with replies := s.replies ++ more } := by
  obtain ⟨hwf, log, written, r, hsub, hrec, hlog, hfold, hsame⟩ := h
  refine ⟨hwf, log, written, r, ?_, hrec, hlog, hfold, hsame⟩
  rw [succeeded_append]
  exact hsub.trans (sublist_append_left _ _)

theorem Sys.Clean.write {batch : List Call} {io : Io} (h : s.Clean st base)
    (hg : FailsClean policy s (.write batch io))
    (hstep : s.step policy (.write batch io) = some s') : s'.Clean st base := by
  obtain ⟨hwf, log, written, r, hsub, hrec, hlog, hfold, hsame⟩ := h
  obtain ⟨hstore, ⟨hqueue, hreplies, hrec'⟩ | ⟨e, hqueue, hreplies, hrec'⟩⟩ :=
    step_write_recovers hrec hg hstep
  · refine ⟨hstore ▸ hwf, log ++ batch.map Call.entry, written, r, hreplies ▸ hsub,
      append_assoc base .. ▸ hrec', ?_, hfold, hstore ▸ hsame⟩
    rw [hqueue, map_append, ← append_assoc, foldlM_append, foldlM_append, hlog]
  · refine ⟨hstore ▸ hwf, log, written, r, ?_, hrec', hqueue ▸ hlog, hfold, hstore ▸ hsame⟩
    rw [hreplies, succeeded_append]
    exact hsub.trans (sublist_append_left _ _)

theorem Sys.Clean.apply {c : Call} (h : s.Clean st base) (hg : FailsClean policy s (.apply c))
    (hstep : s.step policy (.apply c) = some s') : s'.Clean st base := by
  obtain ⟨hseparate, hcheck⟩ := hg
  obtain ⟨hwf, log, written, r, hsub, hrec, hlog, hfold, hsame⟩ := h
  obtain ⟨hc, ⟨store, hstore, rfl⟩ | ⟨e, he, rfl⟩⟩ := step_apply hstep
  · obtain ⟨store', hstore', hentry, hwf'⟩ := apply_of_check hwf hcheck
    cases hstore.symm.trans hstore'
    obtain ⟨r', hr', hsame'⟩ := Rel.of_ok_right (hentry ▸ applyEntry_same hsame c.entry)
    refine ⟨hwf', log, written ++ [c.entry], r', ?_, hrec, ?_, foldlM_concat hfold hr', hsame'⟩
    · rw [succeeded_append]
      exact hsub.append (List.Sublist.refl [c.entry])
    · -- the call is replayed as if it had been logged ahead of the others
      rw [hlog, append_assoc, singleton_append, ← map_cons, foldlM_append, foldlM_append]
      exact congrArg _ (funext fun s => (replay_cons_erase hc hseparate s).symm)
  · exact absurd he (apply_ne_err_of_check hcheck e)

theorem step_clean (a : Action) (h : s.Clean st base) (hg : FailsClean policy s a)
    (hstep : s.step policy a = some s') : s'.Clean st base := by
  cases a with
  | check c =>
    obtain ⟨-, ⟨-, rfl⟩ | ⟨-, rfl⟩ | ⟨e, rfl⟩⟩ := step_check hstep
    · exact ⟨h.wf, h.written⟩
    · exact h.reply _
    · exact h.reply _
  | write batch io => exact h.write hg hstep
  | apply c => exact h.apply hg hstep
  | nextAutoIncrement table =>
    rcases step_nextAutoIncrement hstep with rfl | ⟨store, v, hn, rfl⟩
    · exact h
    · obtain ⟨hwf, hsame⟩ := nextAutoIncrement_eq_ok h.wf hn
      obtain ⟨log, written, r, hsub, hrec, hlog, hfold, hr⟩ := h.written
      exact ⟨hwf, log, written, r, hsub, hrec, hlog, hfold, hr.trans hsame⟩

end Invariant

/-- In every state of a run, re-opening the log replays, beyond what the store was opened
from, records of calls that returned `Ok` and then those of acknowledged calls still to be
applied; the former alone give the tables and databases in memory. -/
theorem failed_never_replayed (policy : SyncPolicy) {content : Option (List UInt8)} {st : Store}
    {file : List UInt8} (hopen : Log.open applyEntry Store.empty content = .ok (st, file))
    (hst : st.Wf) {s : Sys}
    (hrun : Runs.Reach (Sys.step policy) (FailsClean policy) (.start st file) s) :
    ∃ written file' r, written.Sublist (succeeded s.replies) ∧
      Log.open applyEntry Store.empty (some s.file) =
        ((written ++ s.queue.map Call.entry).foldlM applyEntry st >>= fun r => .ok (r, file')) ∧
      written.foldlM applyEntry st = .ok r ∧ r.Same s.store := by
  obtain ⟨base, hbase, hst'⟩ := open_recovers hopen
  have hstart : (Sys.start st file).Clean st base :=
    ⟨hst, [], [], st, nil_sublist _, (append_nil base).symm ▸ hbase, rfl, rfl, Store.Same.refl st⟩
  obtain ⟨-, log, written, r, hsub, hrec, hlog, hfold, hsame⟩ :=
    hrun.invariant hstart fun _ a _ h hg hstep => step_clean a h hg hstep
  obtain ⟨file', hfile'⟩ := hrec.open_eq applyEntry Store.empty
  refine ⟨written, file', r, hsub, ?_, hfold, hsame⟩
  rw [hfile', foldlM_append, hst', ok_bind, hlog]

def retrySchedule : List Action :=
  [.check (.createDatabase "a" false),
    .write [.createDatabase "a" false] (.writeFailed 0 "no space"),
    .check (.createDatabase "a" false), .write [.createDatabase "a" false] .done,
    .apply (.createDatabase "a" false)]

theorem retrySchedule_failed_never_replayed :
    ∃ s, retrySchedule.foldlM (Sys.step .always) (.start Store.empty []) = some s ∧
      ∃ written file' r, written.Sublist (succeeded s.replies) ∧
        Log.open applyEntry Store.empty (some s.file) =
          ((written ++ s.queue.map Call.entry).foldlM applyEntry Store.empty >>=
            fun r => .ok (r, file')) ∧
        written.foldlM applyEntry Store.empty = .ok r ∧ r.Same s.store := by
  obtain ⟨s, hs⟩ : ∃ s, retrySchedule.foldlM (Sys.step .always) (.start Store.empty []) = some s :=
    ⟨_, rfl⟩
  have hallowed : Runs.Allowed (Sys.step .always) (FailsClean .always) (.start Store.empty [])
      retrySchedule := by
    refine ⟨trivial, ?_⟩
    rintro s₁ ⟨⟩
    refine ⟨⟨by decide, .inl rfl, fun _ c hc => ?_⟩, ?_⟩
    · cases hc
      decide
    rintro s₂ ⟨⟩
    refine ⟨trivial, ?_⟩
    rintro s₃ ⟨⟩
    refine ⟨⟨by decide, .inr ⟨[], [], .nil, rfl⟩, fun h => absurd trivial h⟩, ?_⟩
    rintro s₄ ⟨⟩
    refine ⟨⟨by decide +kernel, by decide +kernel⟩, ?_⟩
    rintro s₅ ⟨⟩
    trivial
  have hopen : Log.open applyEntry Store.empty none = .ok (Store.empty, []) := rfl
  exact ⟨s, hs, failed_never_replayed .always hopen all_empty (hallowed.reach hs)⟩

def duplicateSchedule : List Action :=
  [.check (.createTable "t" [⟨"id", .int, false, false⟩] (some "id")),
    .write [.createTable "t" [⟨"id", .int, false, false⟩] (some "id")] .done,
    .apply (.createTable "t" [⟨"id", .int, false, false⟩] (some "id")),
    .check (.insertRow "t" [.int 7]), .write [.insertRow "t" [.int 7]] (.syncFailed "EIO"),
    .check (.insertRow "t" [.int 7]), .write [.insertRow "t" [.int 7]] .done,
    .apply (.insertRow "t" [.int 7])]

def duplicateLog : List Entry :=
  [.createTable "t" [⟨"id", .int, false, false⟩] (some "id"), .insertRow "t" [.int 7],
    .insertRow "t" [.int 7]]

/-- The record of the failed insert is in the file, the retry passes its check against
memory, and after a restart the key is there twice. -/
theorem duplicateSchedule_replays_twice :
    ∃ s, duplicateSchedule.foldlM (Sys.step .always) (.start Store.empty []) = some s ∧
      s.Quiescent ∧ (Call.insertRow "t" [.int 7], .err (.io "io error: EIO")) ∈ s.replies ∧
      (s.store.tables.lookup "t").map Table.rows = some [[.int 7]] ∧
      ∃ r, Log.open applyEntry Store.empty (some s.file) = .ok (r, s.file) ∧
        (r.tables.lookup "t").map Table.rows = some [[.int 7], [.int 7]] := by
  obtain ⟨r, hopen, hrows⟩ : ∃ r, Log.open applyEntry Store.empty (some (logBytes duplicateLog)) =
        .ok (r, logBytes duplicateLog) ∧
      (r.tables.lookup "t").map Table.rows = some [[.int 7], [.int 7]] :=
    open_rows (by decide) (by decide +kernel)
  have hfile : Sys.file <$> duplicateSchedule.foldlM (Sys.step .always) (.start Store.empty []) =
      some (logBytes duplicateLog) := by
    decide +kernel
  refine ⟨_, rfl, ⟨rfl, rfl⟩, by decide, by decide +kernel, r, ?_, hrows⟩
  rw [Option.some.inj hfile, hopen]

end MysqlRust
